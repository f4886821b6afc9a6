import InventixDB.Lib.Buffer
import Mathlib.Data.List.Range

/-!
# Lz4 — the page compressor of the storage engine

A compressed block is the size of the original and a list of tokens: a literal byte, or a copy of
bytes up to 255 positions back.  A copy's length sits in four bits, and a length of 15 or more in
four bits and an extension byte; the encoder writes the extension byte for more than 15 only.
-/

namespace InventixDB
namespace Storage

open Lib.ByteCodec

/-! ## The encoder -/

/-- The inner `while` of the match search; at most `left` more bytes are compared. -/
def matchLoop (src : List UInt8) (srcPos i : Nat) : Nat → Nat → Nat
  | 0, matchLen => matchLen
  | left + 1, matchLen =>
      if srcPos + matchLen < src.length ∧ i + matchLen < srcPos ∧
          src[i + matchLen]? = src[srcPos + matchLen]? then
        matchLoop src srcPos i left (matchLen + 1)
      else matchLen

structure LzMatch where
  len : Nat
  offset : Nat
  deriving DecidableEq, Repr

/-- One candidate of the search window. -/
def LzMatch.improve (src : List UInt8) (srcPos : Nat) (best : LzMatch) (i : Nat) : LzMatch :=
  let matchLen := matchLoop src srcPos i 255 0
  if matchLen ≥ 4 ∧ matchLen > best.len then { len := matchLen, offset := srcPos - i } else best

/-- The longest match for `srcPos` in the last 255 bytes; `len` is 0 without one. -/
def bestMatch (src : List UInt8) (srcPos : Nat) : LzMatch :=
  let searchStart := if srcPos > 255 then srcPos - 255 else 0
  (List.range' searchStart (srcPos - searchStart)).foldl (LzMatch.improve src srcPos)
    { len := 0, offset := 0 }

/-- The bytes of a match token. -/
def matchToken (best : LzMatch) : List UInt8 :=
  [0x80 ||| UInt8.ofNat (if best.len > 15 then 15 else best.len), UInt8.ofNat best.offset] ++
    if best.len > 15 then [UInt8.ofNat (best.len - 15)] else []

def compressLoop (src : List UInt8) (dstCapacity srcPos : Nat) (dst : List UInt8) : List UInt8 :=
  if _h : srcPos < src.length ∧ dst.length < dstCapacity - 1 then
    let best := bestMatch src srcPos
    if best.len ≥ 4 then
      if dst.length + 3 > dstCapacity then dst
      else compressLoop src dstCapacity (srcPos + best.len) (dst ++ matchToken best)
    else
      if dst.length + 2 > dstCapacity then dst
      else compressLoop src dstCapacity (srcPos + 1) (dst ++ [0x00, src[srcPos]])
  else dst
termination_by src.length - srcPos
decreasing_by
  · have hbest : (bestMatch src srcPos).len ≥ 4 := by assumption
    omega
  · omega

/-- The bytes `compress_lz4` leaves in `dst`; it returns how many there are. -/
def compressLz4 (src : List UInt8) (dstCapacity : Nat) : List UInt8 :=
  if src.length = 0 ∨ dstCapacity < 4 then []
  else compressLoop src dstCapacity 0 (leBytes 4 src.length)

/-! ## The decoder -/

/-- Copy `n` bytes from `offset` back; a byte with nothing that far back is left as it is. -/
def copyLoop (origSize offset : Nat) : Nat → Nat → List UInt8 → Nat × List UInt8
  | 0, dstPos, dst => (dstPos, dst)
  | n + 1, dstPos, dst =>
      if dstPos < origSize then
        copyLoop origSize offset n (dstPos + 1)
          (if dstPos ≥ offset then dst.set dstPos (dst.getD (dstPos - offset) 0) else dst)
      else (dstPos, dst)

/-- The match length, and what follows it.  The sum of the extension is an `uint8_t`. -/
def readMatchLen (token : UInt8) : List UInt8 → UInt8 × List UInt8
  | [] => (token &&& 0x0F, [])
  | ext :: rest =>
      if token &&& 0x0F = 15 then ((token &&& 0x0F) + ext, rest) else (token &&& 0x0F, ext :: rest)

theorem length_readMatchLen (token : UInt8) (rest : List UInt8) :
    (readMatchLen token rest).2.length ≤ rest.length := by
  cases rest with
  | nil => exact le_refl 0
  | cons ext rest =>
      rw [readMatchLen]
      split
      · exact Nat.le_succ rest.length
      · exact le_refl _

/-- `dstPos` and the output once the tokens are used up. -/
def decompressLoop (origSize : Nat) (src : List UInt8) (dstPos : Nat) (dst : List UInt8) :
    Nat × List UInt8 :=
  match src with
  | token :: arg :: rest =>
      if dstPos < origSize then
        if token &&& 0x80 ≠ 0 then
          let r := readMatchLen token rest
          let c := copyLoop origSize arg.toNat r.1.toNat dstPos dst
          decompressLoop origSize r.2 c.1 c.2
        else decompressLoop origSize rest (dstPos + 1) (dst.set dstPos arg)
      else (dstPos, dst)
  | _ => (dstPos, dst)
termination_by src.length
decreasing_by
  · have := length_readMatchLen token rest
    simp only [List.length_cons]
    omega
  · simp only [List.length_cons]
    omega

/-- `decompress_lz4` into the buffer `dst`: what it returns, and the buffer afterwards. -/
def decompressLz4 (src dst : List UInt8) : Nat × List UInt8 :=
  if src.length < 4 then (0, dst)
  else
    let origSize := leNat (src.take 4)
    if origSize > dst.length then (0, dst) else decompressLoop origSize (src.drop 4) 0 dst

/-! ## What the encoder emits -/

/-- The position after the token at `srcPos`. -/
def nextToken (src : List UInt8) (srcPos : Nat) : Nat :=
  if (bestMatch src srcPos).len ≥ 4 then srcPos + (bestMatch src srcPos).len else srcPos + 1

theorem lt_nextToken (src : List UInt8) (srcPos : Nat) : srcPos < nextToken src srcPos := by
  rw [nextToken]
  split <;> omega

/-- The positions from `srcPos` on at which a token starts. -/
def tokenStarts (src : List UInt8) (srcPos : Nat) : List Nat :=
  if srcPos < src.length then srcPos :: tokenStarts src (nextToken src srcPos) else []
termination_by src.length - srcPos
decreasing_by
  have := lt_nextToken src srcPos
  omega

def tokenAt (src : List UInt8) (srcPos : Nat) : List UInt8 :=
  if (bestMatch src srcPos).len ≥ 4 then matchToken (bestMatch src srcPos)
  else [0x00, src.getD srcPos 0]

/-- Every token from `srcPos` on. -/
def tokensFrom (src : List UInt8) (srcPos : Nat) : List UInt8 :=
  (tokenStarts src srcPos).flatMap (tokenAt src)

theorem tokensFrom_of_lt {src : List UInt8} {srcPos : Nat} (h : srcPos < src.length) :
    tokensFrom src srcPos = tokenAt src srcPos ++ tokensFrom src (nextToken src srcPos) := by
  rw [tokensFrom, tokenStarts, if_pos h, List.flatMap_cons, tokensFrom]

theorem tokensFrom_of_le {src : List UInt8} {srcPos : Nat} (h : src.length ≤ srcPos) :
    tokensFrom src srcPos = [] := by
  rw [tokensFrom, tokenStarts, if_neg (by omega), List.flatMap_nil]

/-! ## The match search -/

variable {src out rest : List UInt8} {srcPos : Nat}

/-- `len` bytes at `srcPos` are those `offset` back, and end before they begin. -/
structure LzMatch.Agrees (src : List UInt8) (srcPos : Nat) (m : LzMatch) : Prop where
  le_offset : m.len ≤ m.offset
  offset_le : m.offset ≤ srcPos
  offset_window : m.offset ≤ 255
  in_bounds : srcPos + m.len ≤ src.length
  agree : ∀ j < m.len, src[srcPos - m.offset + j]? = src[srcPos + j]?

theorem matchLoop_agrees {i : Nat} (hi : i < srcPos) (left matchLen : Nat)
    (h : LzMatch.Agrees src srcPos { len := matchLen, offset := srcPos - i }) :
    LzMatch.Agrees src srcPos
      { len := matchLoop src srcPos i left matchLen, offset := srcPos - i } := by
  induction left generalizing matchLen with
  | zero => exact h
  | succ left ih =>
      rw [matchLoop]
      split
      next hmore =>
        obtain ⟨hsrc, hbefore, hbyte⟩ := hmore
        refine ih (matchLen + 1) ⟨?_, h.offset_le, h.offset_window, ?_, ?_⟩
        · show matchLen + 1 ≤ srcPos - i
          omega
        · show srcPos + (matchLen + 1) ≤ src.length
          omega
        · intro j hj
          have hback : srcPos - (srcPos - i) = i := by omega
          rcases Nat.lt_succ_iff_lt_or_eq.mp hj with hlt | heq
          · exact h.agree j hlt
          · subst heq
            show src[srcPos - (srcPos - i) + j]? = src[srcPos + j]?
            rw [hback]
            exact hbyte
      next => exact h

theorem bestMatch_agrees (hpos : srcPos ≤ src.length)
    (hlen : (bestMatch src srcPos).len ≥ 4) :
    LzMatch.Agrees src srcPos (bestMatch src srcPos) := by
  -- Over the candidates seen so far the best one is a real match, or there is none.
  have hfold : ∀ (is : List Nat) (best : LzMatch),
      (∀ i ∈ is, i < srcPos ∧ srcPos ≤ i + 255) →
      (best.len = 0 ∨ best.Agrees src srcPos) →
      ((is.foldl (LzMatch.improve src srcPos) best).len = 0 ∨
        (is.foldl (LzMatch.improve src srcPos) best).Agrees src srcPos) := by
    intro is
    induction is with
    | nil => exact fun best _ hbest => hbest
    | cons i is ih =>
        intro best his hbest
        obtain ⟨hi, hw⟩ := his i List.mem_cons_self
        refine ih _ (fun j hj => his j (List.mem_cons_of_mem i hj)) ?_
        rw [LzMatch.improve]
        split
        · refine Or.inr (matchLoop_agrees hi 255 0 ⟨?_, ?_, ?_, hpos, ?_⟩)
          · exact Nat.zero_le _
          · exact Nat.sub_le _ _
          · show srcPos - i ≤ 255
            omega
          · intro j hj
            exact absurd hj (Nat.not_lt_zero j)
        · exact hbest
  have hwindow : ∀ i ∈ List.range' (if srcPos > 255 then srcPos - 255 else 0)
      (srcPos - if srcPos > 255 then srcPos - 255 else 0), i < srcPos ∧ srcPos ≤ i + 255 := by
    intro i hi
    rw [List.mem_range'_1] at hi
    split at hi <;> omega
  rcases hfold _ { len := 0, offset := 0 } hwindow (Or.inl rfl) with hzero | hagrees
  · rw [bestMatch, hzero] at hlen
    exact absurd hlen (by omega)
  · exact hagrees

theorem le_matchLoop (src : List UInt8) (srcPos i left matchLen : Nat) :
    matchLen ≤ matchLoop src srcPos i left matchLen := by
  induction left generalizing matchLen with
  | zero => exact le_refl matchLen
  | succ left ih =>
      rw [matchLoop]
      split
      · exact (Nat.le_succ matchLen).trans (ih (matchLen + 1))
      · exact le_refl matchLen

/-- The search finds a match that is no shorter than any candidate's. -/
theorem le_bestMatch {i : Nat} (hi : i < srcPos) (hw : srcPos ≤ i + 255)
    (hlen : matchLoop src srcPos i 255 0 ≥ 4) :
    matchLoop src srcPos i 255 0 ≤ (bestMatch src srcPos).len := by
  have himprove : ∀ (best : LzMatch) (j : Nat),
      best.len ≤ (best.improve src srcPos j).len := by
    intro best j
    rw [LzMatch.improve]
    split
    next hbetter => exact hbetter.2.le
    next => exact le_refl _
  have hgrow : ∀ (is : List Nat) (best : LzMatch),
      best.len ≤ (is.foldl (LzMatch.improve src srcPos) best).len := by
    intro is
    induction is with
    | nil => exact fun best => le_refl _
    | cons j is ih => exact fun best => (himprove best j).trans (ih _)
  have hfold : ∀ (is : List Nat) (best : LzMatch), i ∈ is →
      matchLoop src srcPos i 255 0 ≤ (is.foldl (LzMatch.improve src srcPos) best).len := by
    intro is
    induction is with
    | nil => exact fun best hmem => by cases hmem
    | cons j is ih =>
        intro best hmem
        rcases List.mem_cons.mp hmem with rfl | hmem
        · refine le_trans ?_ (hgrow is _)
          rw [LzMatch.improve]
          split
          next => exact le_refl _
          next hbetter => exact Nat.le_of_not_lt fun hlt => hbetter ⟨hlen, hlt⟩
        · exact ih _ hmem
  refine hfold _ _ ?_
  rw [List.mem_range'_1]
  split <;> omega

theorem LzMatch.Agrees.len_le {m : LzMatch} (h : m.Agrees src srcPos) : m.len ≤ 255 :=
  h.le_offset.trans h.offset_window

theorem nextToken_le (hpos : srcPos < src.length) : nextToken src srcPos ≤ src.length := by
  rw [nextToken]
  split
  next hlen => exact (bestMatch_agrees hpos.le hlen).in_bounds
  next => exact hpos

theorem length_tokenAt_le (hpos : srcPos < src.length) :
    (tokenAt src srcPos).length + 2 * (src.length - nextToken src srcPos) ≤
      2 * (src.length - srcPos) := by
  have hle := nextToken_le hpos
  rw [tokenAt]
  rw [nextToken] at hle ⊢
  split
  next hlen =>
    rw [if_pos hlen] at hle
    rw [matchToken]
    split <;> simp <;> omega
  next hlen => simp; omega

theorem length_tokensFrom_le (hpos : srcPos ≤ src.length) :
    (tokensFrom src srcPos).length ≤ 2 * (src.length - srcPos) := by
  induction hleft : src.length - srcPos using Nat.strong_induction_on generalizing srcPos with
  | _ left ih =>
      rcases Nat.lt_or_eq_of_le hpos with hmore | rfl
      · have hlt := lt_nextToken src srcPos
        have hrest := ih _ (by omega) (nextToken_le hmore) rfl
        have htoken := length_tokenAt_le hmore
        rw [tokensFrom_of_lt hmore, List.length_append]
        omega
      · rw [tokensFrom_of_le le_rfl]
        exact Nat.zero_le _

/-- With two bytes of room for each byte to come the encoder stops at the end of its input. -/
theorem compressLoop_eq {dstCapacity : Nat} {dst : List UInt8} (hpos : srcPos ≤ src.length)
    (hcap : dst.length + 2 * (src.length - srcPos) + 1 ≤ dstCapacity) :
    compressLoop src dstCapacity srcPos dst = dst ++ tokensFrom src srcPos := by
  fun_induction compressLoop src dstCapacity srcPos dst with
  | case1 srcPos dst hloop best hlen hfull =>
      have hin := (bestMatch_agrees hpos hlen).in_bounds
      omega
  | case2 srcPos dst hloop best hlen hfull ih =>
      have hle := nextToken_le hloop.1
      have htok := length_tokenAt_le hloop.1
      rw [nextToken, if_pos hlen] at hle htok
      rw [tokenAt, if_pos hlen] at htok
      have hroom : (dst ++ matchToken (bestMatch src srcPos)).length +
          2 * (src.length - (srcPos + (bestMatch src srcPos).len)) + 1 ≤ dstCapacity := by
        rw [List.length_append]
        omega
      rw [ih hle hroom, tokensFrom_of_lt hloop.1, tokenAt, nextToken, if_pos hlen, if_pos hlen,
        List.append_assoc]
  | case3 srcPos dst hloop best hlen hfull => omega
  | case4 srcPos dst hloop best hlen hfull ih =>
      rw [ih hloop.1 (by simp; omega), tokensFrom_of_lt hloop.1, tokenAt, nextToken, if_neg hlen,
        if_neg hlen, List.append_assoc, List.getD_eq_getElem?_getD,
        List.getElem?_eq_getElem hloop.1, Option.getD_some]
  | case5 srcPos dst hloop =>
      rw [tokensFrom_of_le (by omega), List.append_nil]

/-! ## A run of one byte -/

theorem bestMatch_replicate {n : Nat} {b : UInt8} (hback : 4 ≤ srcPos) (hpos : srcPos + 4 ≤ n) :
    (bestMatch (List.replicate n b) srcPos).len ≥ 4 := by
  have hget : ∀ k < n, (List.replicate n b)[k]? = some b := by
    intro k hk
    rw [List.getElem?_replicate, if_pos hk]
  have hmore : ∀ k < 4, srcPos + k < (List.replicate n b).length ∧ srcPos - 4 + k < srcPos ∧
      (List.replicate n b)[srcPos - 4 + k]? = (List.replicate n b)[srcPos + k]? := by
    intro k hk
    rw [List.length_replicate, hget _ (by omega), hget _ (by omega)]
    exact ⟨by omega, by omega, rfl⟩
  have hfour : matchLoop (List.replicate n b) srcPos (srcPos - 4) 255 0 ≥ 4 := by
    rw [matchLoop, if_pos (hmore 0 (by omega)), matchLoop, if_pos (hmore 1 (by omega)), matchLoop,
      if_pos (hmore 2 (by omega)), matchLoop, if_pos (hmore 3 (by omega))]
    exact le_matchLoop _ _ _ _ _
  exact hfour.trans (le_bestMatch (by omega) (by omega) hfour)

/-- Past its first bytes a run of one byte is all matches. -/
theorem length_tokensFrom_replicate {n : Nat} {b : UInt8} (hpos : srcPos ≤ n) :
    4 * (tokensFrom (List.replicate n b) srcPos).length ≤
      3 * (n - srcPos) + 24 + 5 * (4 - srcPos) := by
  induction hleft : n - srcPos using Nat.strong_induction_on generalizing srcPos with
  | _ left ih =>
      have hlen : (List.replicate n b).length = n := List.length_replicate
      rcases Nat.lt_or_eq_of_le hpos with hmore | rfl
      · have hmore' : srcPos < (List.replicate n b).length := by rwa [hlen]
        have hlt := lt_nextToken (List.replicate n b) srcPos
        have hle := nextToken_le hmore'
        rw [hlen] at hle
        have hrest := ih _ (by omega) hle rfl
        rw [tokensFrom_of_lt hmore', List.length_append]
        by_cases hmatch : (bestMatch (List.replicate n b) srcPos).len ≥ 4
        · have htoken : (tokenAt (List.replicate n b) srcPos).length ≤ 3 := by
            rw [tokenAt, if_pos hmatch, matchToken]
            split <;> simp
          have hnext : nextToken (List.replicate n b) srcPos =
              srcPos + (bestMatch (List.replicate n b) srcPos).len := if_pos hmatch
          omega
        · have hnext : nextToken (List.replicate n b) srcPos = srcPos + 1 := if_neg hmatch
          have htoken : (tokenAt (List.replicate n b) srcPos).length = 2 := by
            rw [tokenAt, if_neg hmatch]
            rfl
          by_cases hback : srcPos < 4
          · omega
          · -- fewer than four bytes are left
            have hfew : n < srcPos + 4 :=
              Nat.lt_of_not_le fun hge => hmatch (bestMatch_replicate (by omega) hge)
            have hinside : nextToken (List.replicate n b) srcPos ≤
                (List.replicate n b).length := by
              rwa [hlen]
            have htwo := length_tokensFrom_le hinside
            omega
      · rw [tokensFrom_of_le (by rw [hlen])]
        exact Nat.zero_le _

/-- The encoder has stopped at the end of its input if there is room left for a token. -/
theorem compressLoop_complete {dstCapacity : Nat} {dst : List UInt8}
    (hroom : (compressLoop src dstCapacity srcPos dst).length + 2 < dstCapacity) :
    compressLoop src dstCapacity srcPos dst = dst ++ tokensFrom src srcPos := by
  fun_induction compressLoop src dstCapacity srcPos dst with
  | case1 srcPos dst hloop best hlen hfull => omega
  | case2 srcPos dst hloop best hlen hfull ih =>
      rw [ih hroom, tokensFrom_of_lt hloop.1, tokenAt, nextToken, if_pos hlen, if_pos hlen,
        List.append_assoc]
  | case3 srcPos dst hloop best hlen hfull => omega
  | case4 srcPos dst hloop best hlen hfull ih =>
      rw [ih hroom, tokensFrom_of_lt hloop.1, tokenAt, nextToken, if_neg hlen, if_neg hlen,
        List.append_assoc, List.getD_eq_getElem?_getD, List.getElem?_eq_getElem hloop.1,
        Option.getD_some]
  | case5 srcPos dst hloop =>
      rw [tokensFrom_of_le (by omega), List.append_nil]

/-! ## Reading the tokens back -/

/-- The buffer once the first `srcPos` bytes of `src` are in it. -/
def filled (src out : List UInt8) (srcPos : Nat) : List UInt8 :=
  src.take srcPos ++ out.drop srcPos

theorem filled_set (hout : src.length ≤ out.length) (hpos : srcPos < src.length) :
    (filled src out srcPos).set srcPos (src.getD srcPos 0) = filled src out (srcPos + 1) := by
  have htake : (src.take srcPos).length = srcPos := by
    rw [List.length_take]
    omega
  have hdrop : out.drop srcPos = out[srcPos] :: out.drop (srcPos + 1) :=
    List.drop_eq_getElem_cons (by omega)
  have hbyte : src.getD srcPos 0 = src[srcPos] := by
    rw [List.getD_eq_getElem?_getD, List.getElem?_eq_getElem hpos, Option.getD_some]
  rw [filled, filled, List.set_append_right _ _ (by omega), htake, Nat.sub_self, hdrop,
    List.set_cons_zero, hbyte, List.take_succ_eq_append_getElem hpos, List.append_assoc,
    List.singleton_append]

theorem getD_filled {p : Nat} (hp : p < srcPos) (hpos : srcPos ≤ src.length) :
    (filled src out srcPos).getD p 0 = src.getD p 0 := by
  have htake : p < (src.take srcPos).length := by
    rw [List.length_take]
    omega
  rw [filled, List.getD_eq_getElem?_getD, List.getElem?_append_left htake,
    List.getElem?_take_of_lt hp, List.getD_eq_getElem?_getD]

/-- Copying what the match search has compared; a longer copy is cut off by the original size. -/
theorem copyLoop_agrees {m : LzMatch} (hout : src.length ≤ out.length)
    (hm : m.Agrees src srcPos) (hback : m.offset ≠ 0) {n : Nat}
    (hn : n = m.len ∨ m.len ≤ n ∧ srcPos + m.len = src.length) :
    copyLoop src.length m.offset n srcPos (filled src out srcPos) =
      (srcPos + m.len, filled src out (srcPos + m.len)) := by
  -- `k` bytes of the match are copied already.
  have hloop : ∀ (n k : Nat), k ≤ m.len → (n = m.len - k ∨
        m.len - k ≤ n ∧ srcPos + m.len = src.length) →
      copyLoop src.length m.offset n (srcPos + k) (filled src out (srcPos + k)) =
        (srcPos + m.len, filled src out (srcPos + m.len)) := by
    have hin := hm.in_bounds
    have hle := hm.offset_le
    intro n
    induction n with
    | zero =>
        intro k hk hn
        have hdone : k = m.len := by omega
        rw [copyLoop, hdone]
    | succ n ih =>
        intro k hk hn
        rw [copyLoop]
        by_cases hmore : srcPos + k < src.length
        · have hkm : k < m.len := by omega
          have hbyte : (filled src out (srcPos + k)).getD (srcPos + k - m.offset) 0 =
              src.getD (srcPos + k) 0 := by
            rw [getD_filled (by omega) hmore.le, List.getD_eq_getElem?_getD,
              List.getD_eq_getElem?_getD, ← hm.agree k hkm]
            congr 2
            omega
          rw [if_pos hmore, if_pos (by omega), hbyte, filled_set hout hmore]
          exact ih (k + 1) hkm (by omega)
        · have hdone : k = m.len := by omega
          rw [if_neg hmore, hdone]
  exact hloop n 0 (Nat.zero_le _) hn

/-- The extension byte of a match of length 15 is missing: the next byte is taken for it, unless
the input ends there.  Past the end a small byte does no harm. -/
def FifteenEnds (src rest : List UInt8) (srcPos : Nat) : Prop :=
  ∀ p ∈ tokenStarts src srcPos, (bestMatch src p).len = 15 →
    p + 15 = src.length ∧ ∀ ext ∈ rest.head?, ext.toNat < 241

theorem toNat_byte {n : Nat} (hn : n ≤ 255) : (UInt8.ofNat n).toNat = n :=
  UInt8.toNat_ofNat_of_lt' (Nat.lt_succ_of_le hn)

theorem token_isMatch {n : Nat} (hn : n ≤ 15) : (0x80 ||| UInt8.ofNat n) &&& 0x80 ≠ 0 := by
  have hall : ∀ n : Fin 16, (0x80 ||| UInt8.ofNat n) &&& 0x80 ≠ 0 := by decide
  exact hall ⟨n, Nat.lt_succ_of_le hn⟩

theorem token_nibble {n : Nat} (hn : n ≤ 15) :
    (0x80 ||| UInt8.ofNat n) &&& 0x0F = UInt8.ofNat n := by
  have hall : ∀ n : Fin 16, (0x80 ||| UInt8.ofNat n) &&& 0x0F = UInt8.ofNat n := by decide
  exact hall ⟨n, Nat.lt_succ_of_le hn⟩

theorem readMatchLen_short {n : Nat} (hn : n < 15) (tail : List UInt8) :
    readMatchLen (0x80 ||| UInt8.ofNat n) tail = (UInt8.ofNat n, tail) := by
  have hne : UInt8.ofNat n ≠ 15 := by
    have hall : ∀ n : Fin 15, UInt8.ofNat n ≠ 15 := by decide
    exact hall ⟨n, hn⟩
  cases tail with
  | nil => rw [readMatchLen, token_nibble hn.le]
  | cons ext tail => rw [readMatchLen, token_nibble hn.le, if_neg hne]

theorem readMatchLen_long (ext : UInt8) (tail : List UInt8) :
    readMatchLen (0x80 ||| UInt8.ofNat 15) (ext :: tail) = (15 + ext, tail) := by
  rw [readMatchLen, token_nibble le_rfl]
  rfl

theorem decompressLoop_done (origSize : Nat) (src dst : List UInt8) :
    decompressLoop origSize src origSize dst = (origSize, dst) := by
  fun_cases decompressLoop origSize src origSize dst with
  | case1 token arg rest hlt | case2 token arg rest hlt => exact absurd hlt (Nat.lt_irrefl origSize)
  | case3 => rfl
  | case4 => rfl

/-- A token that is a match of any length but a bare 15. -/
theorem decompressLoop_match {m : LzMatch} (hout : src.length ≤ out.length)
    (hm : m.Agrees src srcPos) (hlen : m.len ≥ 4) (hne : m.len ≠ 15) (tail : List UInt8) :
    decompressLoop src.length (matchToken m ++ tail) srcPos (filled src out srcPos) =
      decompressLoop src.length tail (srcPos + m.len) (filled src out (srcPos + m.len)) := by
  have hle := hm.len_le
  have hwin := hm.offset_window
  have hoff := hm.le_offset
  have hin := hm.in_bounds
  have harg : (UInt8.ofNat m.offset).toNat = m.offset := toNat_byte (by omega)
  have hcopy := copyLoop_agrees hout hm (by omega) (Or.inl rfl)
  by_cases hlong : m.len > 15
  · have hsum : (15 + UInt8.ofNat (m.len - 15)).toNat = m.len := by
      have hadd : (15 : UInt8) + UInt8.ofNat (m.len - 15) = UInt8.ofNat (15 + (m.len - 15)) := by
        rw [UInt8.ofNat_add]
        rfl
      rw [hadd, toNat_byte (by omega)]
      omega
    rw [matchToken, if_pos hlong, if_pos hlong, List.append_assoc, List.cons_append,
      List.cons_append, List.nil_append, List.singleton_append, decompressLoop,
      if_pos (by omega), if_pos (token_isMatch le_rfl), readMatchLen_long]
    dsimp only
    rw [hsum, harg, hcopy]
  · have hsize : (UInt8.ofNat m.len).toNat = m.len := toNat_byte (by omega)
    rw [matchToken, if_neg hlong, if_neg hlong, List.append_nil, List.cons_append,
      List.cons_append, List.nil_append, decompressLoop, if_pos (by omega),
      if_pos (token_isMatch (by omega)), readMatchLen_short (by omega)]
    dsimp only
    rw [hsize, harg, hcopy]

/-- A bare 15 at the end of the input. -/
theorem decompressLoop_fifteen {m : LzMatch} (hout : src.length ≤ out.length)
    (hm : m.Agrees src srcPos) (hlen : m.len = 15) (hend : srcPos + 15 = src.length)
    (hrest : ∀ ext ∈ rest.head?, ext.toNat < 241) :
    decompressLoop src.length (matchToken m ++ rest) srcPos (filled src out srcPos) =
      (src.length, filled src out src.length) := by
  have hoff := hm.le_offset
  have hwin := hm.offset_window
  have harg : (UInt8.ofNat m.offset).toNat = m.offset := toNat_byte (by omega)
  have hcopy : ∀ n, 15 ≤ n → copyLoop src.length m.offset n srcPos (filled src out srcPos) =
      (src.length, filled src out src.length) := by
    intro n hn
    rw [copyLoop_agrees hout hm (by omega) (Or.inr ⟨by omega, by omega⟩), hlen, hend]
  have hread : 15 ≤ (readMatchLen (0x80 ||| UInt8.ofNat 15) rest).1.toNat := by
    cases rest with
    | nil => exact le_of_eq rfl
    | cons ext rest =>
        have hext := hrest ext rfl
        have hadd : (15 + ext).toNat = 15 + ext.toNat := by
          rw [UInt8.toNat_add]
          exact Nat.mod_eq_of_lt (by
            show 15 + ext.toNat < 256
            omega)
        rw [readMatchLen_long, hadd]
        exact Nat.le_add_right 15 _
  rw [matchToken, if_neg (by omega), if_neg (by omega), List.append_nil, List.cons_append,
    List.cons_append, List.nil_append, hlen, decompressLoop, if_pos (by omega),
    if_pos (token_isMatch le_rfl)]
  dsimp only
  rw [harg, hcopy _ hread, decompressLoop_done]

theorem FifteenEnds.next (h : FifteenEnds src rest srcPos) (hpos : srcPos < src.length) :
    FifteenEnds src rest (nextToken src srcPos) := by
  intro p hp
  refine h p ?_
  rw [tokenStarts, if_pos hpos]
  exact List.mem_cons_of_mem srcPos hp

/-- The decoder reads the encoder's tokens back, whatever follows them. -/
theorem decompressLoop_tokensFrom (hout : src.length ≤ out.length) (hpos : srcPos ≤ src.length)
    (hends : FifteenEnds src rest srcPos) :
    decompressLoop src.length (tokensFrom src srcPos ++ rest) srcPos (filled src out srcPos) =
      (src.length, filled src out src.length) := by
  induction hleft : src.length - srcPos using Nat.strong_induction_on generalizing srcPos with
  | _ left ih =>
      rcases Nat.lt_or_eq_of_le hpos with hmore | rfl
      · have hlt := lt_nextToken src srcPos
        have htail := ih _ (by omega) (nextToken_le hmore) (hends.next hmore) rfl
        rw [tokensFrom_of_lt hmore, tokenAt, List.append_assoc]
        by_cases hlen : (bestMatch src srcPos).len ≥ 4
        · have hagrees := bestMatch_agrees hpos hlen
          have hnext : nextToken src srcPos = srcPos + (bestMatch src srcPos).len := if_pos hlen
          rw [if_pos hlen]
          by_cases hfifteen : (bestMatch src srcPos).len = 15
          · have hhere : srcPos ∈ tokenStarts src srcPos := by
              rw [tokenStarts, if_pos hmore]
              exact List.mem_cons_self
            obtain ⟨hend, hrest⟩ := hends srcPos hhere hfifteen
            rw [tokensFrom_of_le (by omega), List.nil_append]
            exact decompressLoop_fifteen hout hagrees hfifteen hend hrest
          · rw [decompressLoop_match hout hagrees hlen hfifteen, ← hnext]
            exact htail
        · have hnext : nextToken src srcPos = srcPos + 1 := if_neg hlen
          rw [if_neg hlen, List.cons_append, List.cons_append, List.nil_append, decompressLoop,
            if_pos hmore, if_neg (by decide), filled_set hout hmore, ← hnext]
          exact htail
      · rw [tokensFrom_of_le le_rfl, List.nil_append, decompressLoop_done]

/-! ## The round trip -/

theorem compressLz4_eq {dstCapacity : Nat} (hne : src ≠ [])
    (hcap : dstCapacity ≥ 5 + 2 * src.length) :
    compressLz4 src dstCapacity = leBytes 4 src.length ++ tokensFrom src 0 := by
  have hlen : src.length ≠ 0 := by simpa using hne
  rw [compressLz4, if_neg (by omega), compressLoop_eq (Nat.zero_le _)]
  rw [length_leBytes]
  omega

/-- A compressed block followed by anything. -/
theorem decompressLz4_append (hlt : src.length < 2 ^ 32) (hout : src.length ≤ out.length)
    (hends : FifteenEnds src rest 0) :
    decompressLz4 (leBytes 4 src.length ++ tokensFrom src 0 ++ rest) out =
      (src.length, filled src out src.length) := by
  have hheader : (leBytes 4 src.length ++ tokensFrom src 0 ++ rest).take 4 =
      leBytes 4 src.length := by
    rw [List.append_assoc, List.take_left' (length_leBytes 4 _)]
  have hbody : (leBytes 4 src.length ++ tokensFrom src 0 ++ rest).drop 4 =
      tokensFrom src 0 ++ rest := by
    rw [List.append_assoc, List.drop_left' (length_leBytes 4 _)]
  have hsize : leNat (leBytes 4 src.length) = src.length := by
    rw [leNat_leBytes]
    exact Nat.mod_eq_of_lt hlt
  rw [decompressLz4, if_neg (by simp), hheader, hbody, hsize]
  dsimp only
  rw [if_neg (by omega)]
  exact decompressLoop_tokensFrom hout (Nat.zero_le _) hends

/-- Whatever was compressed into enough room is what any large enough buffer receives. -/
def RoundTrips (src : List UInt8) : Prop :=
  ∀ dstCapacity out, dstCapacity ≥ 5 + 2 * src.length → src.length ≤ out.length →
    decompressLz4 (compressLz4 src dstCapacity) out = (src.length, src ++ out.drop src.length)

theorem roundTrips_of_fifteenEnds (src : List UInt8) (hne : src ≠ []) (hlt : src.length < 2 ^ 32)
    (hends : ∀ p ∈ tokenStarts src 0, (bestMatch src p).len = 15 → p + 15 = src.length) :
    RoundTrips src := by
  intro dstCapacity out hcap hout
  have hclear : FifteenEnds src [] 0 := by
    intro p hp hfifteen
    exact ⟨hends p hp hfifteen, fun ext hext => by cases hext⟩
  have hfilled : filled src out src.length = src ++ out.drop src.length := by
    rw [filled, List.take_length]
  rw [compressLz4_eq hne hcap, ← hfilled, ← List.append_nil (leBytes 4 _ ++ _)]
  exact decompressLz4_append hlt hout hclear

theorem roundTrips_repeated_word : RoundTrips [1, 2, 3, 4, 1, 2, 3, 4, 5] :=
  roundTrips_of_fifteenEnds _ (by decide) (by decide) (by decide +kernel)

/-- The bytes 1 to 15 twice and one byte more: the 15 bytes are copied, and then the token of
the last literal is read as their extension. -/
theorem roundTrips_fails_fifteen :
    ¬ RoundTrips [1, 2, 3, 4, 5, 6, 7, 8, 9, 10, 11, 12, 13, 14, 15,
      1, 2, 3, 4, 5, 6, 7, 8, 9, 10, 11, 12, 13, 14, 15, 16] := by
  intro h
  have hread := h 67 (List.replicate 31 0) (by decide) (by decide)
  revert hread
  decide +kernel

end Storage
end InventixDB
