import InventixDB.Storage.Rle

/-!
# Decoders — decoding bytes of unknown origin

The decoders take their lengths, offsets and counts from the input.  Here every access of theirs is
checked against its buffer, and the checked decoders never fail.  What they leave in the output can
still depend on what the output buffer held before: a copy that starts before the output, or at its
own position, keeps the byte that is there.
-/

namespace InventixDB
namespace Storage

open Lib Lib.ByteCodec

/-! ## Checked accesses -/

/-- `buf[i]`; `none` is an access outside of the buffer. -/
def readAt (buf : List UInt8) (i : Nat) : Option UInt8 :=
  buf[i]?

/-- `buf[i] = v` -/
def writeAt (buf : List UInt8) (i : Nat) (v : UInt8) : Option (List UInt8) :=
  if i < buf.length then some (buf.set i v) else none

/-- `memcpy` of `n` bytes out of the buffer -/
def readBytes (buf : List UInt8) (n : Nat) : Option (List UInt8) :=
  if n ≤ buf.length then some (buf.take n) else none

/-! ## The checked decoders -/

def copyChecked (origSize offset : Nat) : Nat → Nat → List UInt8 → Option (Nat × List UInt8)
  | 0, dstPos, dst => some (dstPos, dst)
  | n + 1, dstPos, dst =>
      if dstPos < origSize then
        if dstPos ≥ offset then do
          let b ← readAt dst (dstPos - offset)
          let dst ← writeAt dst dstPos b
          copyChecked origSize offset n (dstPos + 1) dst
        else copyChecked origSize offset n (dstPos + 1) dst
      else some (dstPos, dst)

def decompressLz4From (src : List UInt8) (origSize srcPos dstPos : Nat) (dst : List UInt8) :
    Option (Nat × List UInt8) :=
  if _h : srcPos < src.length ∧ dstPos < origSize then do
    let token ← readAt src srcPos
    if token &&& 0x80 ≠ 0 then
      if srcPos + 1 ≥ src.length then some (dstPos, dst)
      else
        let offset ← readAt src (srcPos + 1)
        if token &&& 0x0F = 15 ∧ srcPos + 2 < src.length then
          let ext ← readAt src (srcPos + 2)
          let c ← copyChecked origSize offset.toNat ((token &&& 0x0F) + ext).toNat dstPos dst
          decompressLz4From src origSize (srcPos + 3) c.1 c.2
        else
          let c ← copyChecked origSize offset.toNat (token &&& 0x0F).toNat dstPos dst
          decompressLz4From src origSize (srcPos + 2) c.1 c.2
    else
      if srcPos + 1 ≥ src.length then some (dstPos, dst)
      else
        let b ← readAt src (srcPos + 1)
        let dst ← writeAt dst dstPos b
        decompressLz4From src origSize (srcPos + 2) (dstPos + 1) dst
  else some (dstPos, dst)
termination_by src.length - srcPos
decreasing_by all_goals omega

/-- `decompress_lz4` with every access checked -/
def decompressLz4Checked (src dst : List UInt8) : Option (Nat × List UInt8) :=
  if src.length < 4 then some (0, dst)
  else do
    let header ← readBytes src 4
    if leNat header > dst.length then some (0, dst)
    else decompressLz4From src (leNat header) 4 0 dst

def fillChecked (origSize : Nat) (value : UInt8) :
    Nat → Nat → List UInt8 → Option (Nat × List UInt8)
  | 0, dstPos, dst => some (dstPos, dst)
  | n + 1, dstPos, dst =>
      if dstPos < origSize then do
        let dst ← writeAt dst dstPos value
        fillChecked origSize value n (dstPos + 1) dst
      else some (dstPos, dst)

def decompressRleFrom (src : List UInt8) (origSize srcPos dstPos : Nat) (dst : List UInt8) :
    Option (Nat × List UInt8) :=
  if _h : srcPos + 1 < src.length ∧ dstPos < origSize then do
    let count ← readAt src srcPos
    let value ← readAt src (srcPos + 1)
    let c ← fillChecked origSize value count.toNat dstPos dst
    decompressRleFrom src origSize (srcPos + 2) c.1 c.2
  else some (dstPos, dst)
termination_by src.length - srcPos
decreasing_by omega

/-- `decompress_rle` with every access checked -/
def decompressRleChecked (src dst : List UInt8) : Option (Nat × List UInt8) :=
  if src.length < 4 then some (0, dst)
  else do
    let header ← readBytes src 4
    if leNat header > dst.length then some (0, dst)
    else decompressRleFrom src (leNat header) 4 0 dst

/-! ## Copies and runs -/

variable {src dst : List UInt8} {origSize offset dstPos srcPos n k : Nat}

theorem copyLoop_succ_of_lt (h : dstPos < origSize) :
    copyLoop origSize offset (n + 1) dstPos dst =
      copyLoop origSize offset n (dstPos + 1)
        (if dstPos ≥ offset then dst.set dstPos (dst.getD (dstPos - offset) 0) else dst) :=
  if_pos h

theorem copyLoop_of_le (h : origSize ≤ dstPos) :
    copyLoop origSize offset n dstPos dst = (dstPos, dst) := by
  cases n with
  | zero => rfl
  | succ n => exact if_neg (Nat.not_lt_of_le h)

/-- A copy ends behind its last byte, or at the original size. -/
theorem copyLoop_pos (h : dstPos ≤ origSize) :
    (copyLoop origSize offset n dstPos dst).1 = min origSize (dstPos + n) := by
  induction n generalizing dstPos dst with
  | zero => exact (Nat.min_eq_right h).symm
  | succ n ih =>
      rcases Nat.lt_or_eq_of_le h with hlt | rfl
      · rw [copyLoop_succ_of_lt hlt, ih hlt, Nat.succ_add_eq_add_succ]
      · rw [copyLoop_of_le le_rfl, Nat.min_eq_left (Nat.le_add_right _ _)]

/-- One step of a copy writes at its position, if anywhere. -/
theorem getElem?_copyStep (hne : k ≠ dstPos) :
    (if dstPos ≥ offset then dst.set dstPos (dst.getD (dstPos - offset) 0) else dst)[k]? =
      dst[k]? := by
  split
  · exact List.getElem?_set_ne (Ne.symm hne)
  · rfl

theorem length_copyStep :
    (if dstPos ≥ offset then dst.set dstPos (dst.getD (dstPos - offset) 0) else dst).length =
      dst.length := by
  split
  · exact List.length_set
  · rfl

@[simp]
theorem length_copyLoop : (copyLoop origSize offset n dstPos dst).2.length = dst.length := by
  induction n generalizing dstPos dst with
  | zero => rfl
  | succ n ih =>
      rw [copyLoop]
      split
      · rw [ih, length_copyStep]
      · rfl

/-- Outside of the copied range a copy changes nothing. -/
theorem getElem?_copyLoop (hk : k < dstPos ∨ (copyLoop origSize offset n dstPos dst).1 ≤ k) :
    (copyLoop origSize offset n dstPos dst).2[k]? = dst[k]? := by
  induction n generalizing dstPos dst with
  | zero => rfl
  | succ n ih =>
      rcases Nat.lt_or_ge dstPos origSize with hlt | hge
      · rw [copyLoop_succ_of_lt hlt] at hk ⊢
        have hend : dstPos + 1 ≤ (copyLoop origSize offset n (dstPos + 1)
            (if dstPos ≥ offset then dst.set dstPos (dst.getD (dstPos - offset) 0)
              else dst)).1 := by
          rw [copyLoop_pos hlt]
          omega
        rw [ih (hk.imp_left fun h => Nat.lt_succ_of_lt h), getElem?_copyStep (by omega)]
      · rw [copyLoop_of_le hge]

theorem fillLoop_of_le {value : UInt8} (h : origSize ≤ dstPos) :
    fillLoop origSize value n dstPos dst = (dstPos, dst) := by
  cases n with
  | zero => rfl
  | succ n => exact if_neg (Nat.not_lt_of_le h)

theorem fillLoop_bounds {value : UInt8} (h : dstPos ≤ origSize) :
    (fillLoop origSize value n dstPos dst).1 ≤ origSize ∧
      (fillLoop origSize value n dstPos dst).2.length = dst.length := by
  induction n generalizing dstPos dst with
  | zero => exact ⟨h, rfl⟩
  | succ n ih =>
      rcases Nat.lt_or_eq_of_le h with hlt | rfl
      · rw [fillLoop, if_pos hlt]
        have hrest := @ih (dst.set dstPos value) (dstPos + 1) hlt
        rwa [List.length_set] at hrest
      · rw [fillLoop_of_le le_rfl]
        exact ⟨le_rfl, rfl⟩

/-! ## No access out of bounds -/

theorem readAt_of_lt (h : k < src.length) : readAt src k = some (src.getD k 0) := by
  rw [readAt, List.getD_eq_getElem?_getD, List.getElem?_eq_getElem h, Option.getD_some]

theorem writeAt_of_lt {v : UInt8} (h : k < dst.length) : writeAt dst k v = some (dst.set k v) :=
  if_pos h

theorem copyChecked_eq (hsize : origSize ≤ dst.length) :
    copyChecked origSize offset n dstPos dst =
      some (copyLoop origSize offset n dstPos dst) := by
  induction n generalizing dstPos dst with
  | zero => rfl
  | succ n ih =>
      rw [copyChecked, copyLoop]
      split
      next hlt =>
        split
        next hback =>
          rw [readAt_of_lt (by omega), Option.bind_eq_bind, Option.bind_some,
            writeAt_of_lt (by omega)]
          exact ih (by rwa [List.length_set])
        next => exact ih hsize
      next => rfl

theorem fillChecked_eq {value : UInt8} (hsize : origSize ≤ dst.length) :
    fillChecked origSize value n dstPos dst = some (fillLoop origSize value n dstPos dst) := by
  induction n generalizing dstPos dst with
  | zero => rfl
  | succ n ih =>
      rw [fillChecked, fillLoop]
      split
      next hlt =>
        rw [writeAt_of_lt (by omega)]
        exact ih (by rwa [List.length_set])
      next => rfl

theorem drop_of_lt (h : k < src.length) : src.drop k = src.getD k 0 :: src.drop (k + 1) := by
  rw [List.drop_eq_getElem_cons h, List.getD_eq_getElem?_getD, List.getElem?_eq_getElem h,
    Option.getD_some]

theorem readMatchLen_of_extended {token ext : UInt8} {rest : List UInt8}
    (htoken : token &&& 0x0F = 15) :
    readMatchLen token (ext :: rest) = ((token &&& 0x0F) + ext, rest) :=
  if_pos htoken

theorem readMatchLen_of_not {token : UInt8} {rest : List UInt8}
    (hnot : ¬ (token &&& 0x0F = 15 ∧ rest ≠ [])) :
    readMatchLen token rest = (token &&& 0x0F, rest) := by
  cases rest with
  | nil => rfl
  | cons ext rest => exact if_neg fun htoken => hnot ⟨htoken, List.cons_ne_nil _ _⟩

/-- The checked decoder reads what the list of the remaining bytes says. -/
theorem decompressLz4From_eq (hsize : origSize ≤ dst.length) :
    decompressLz4From src origSize srcPos dstPos dst =
      some (decompressLoop origSize (src.drop srcPos) dstPos dst) := by
  induction hleft : src.length - srcPos using Nat.strong_induction_on
    generalizing srcPos dstPos dst with
  | _ left ih =>
      rw [decompressLz4From]
      by_cases hloop : srcPos < src.length ∧ dstPos < origSize
      · obtain ⟨hsrc, hdst⟩ := hloop
        rw [dif_pos ⟨hsrc, hdst⟩, readAt_of_lt hsrc, Option.bind_eq_bind, Option.bind_some,
          drop_of_lt hsrc]
        by_cases hlast : srcPos + 1 ≥ src.length
        · -- a token without its second byte
          rw [List.drop_eq_nil_of_le hlast, if_pos hlast, if_pos hlast, ite_self, decompressLoop]
          intro token arg rest hnil
          cases hnil
        · have harg : srcPos + 1 < src.length := Nat.lt_of_not_le hlast
          rw [if_neg hlast, if_neg hlast, readAt_of_lt harg, Option.bind_some, Option.bind_some,
            drop_of_lt harg, decompressLoop, if_pos hdst]
          generalize src.getD srcPos 0 = token
          generalize src.getD (srcPos + 1) 0 = arg
          by_cases hmatch : token &&& 0x80 ≠ 0
          · rw [if_pos hmatch, if_pos hmatch]
            by_cases hext : token &&& 0x0F = 15 ∧ srcPos + 2 < src.length
            · rw [if_pos hext, readAt_of_lt hext.2, Option.bind_some, copyChecked_eq hsize,
                drop_of_lt hext.2, readMatchLen_of_extended hext.1]
              exact ih _ (by omega) (by rwa [length_copyLoop]) rfl
            · have hnot : ¬ (token &&& 0x0F = 15 ∧ src.drop (srcPos + 1 + 1) ≠ []) := by
                rw [Ne, List.drop_eq_nil_iff, Nat.not_le]
                exact hext
              rw [if_neg hext, copyChecked_eq hsize, readMatchLen_of_not hnot]
              exact ih _ (by omega) (by rwa [length_copyLoop]) rfl
          · rw [if_neg hmatch, if_neg hmatch, writeAt_of_lt (by omega)]
            exact ih _ (by omega) (by rwa [List.length_set]) rfl
      · rw [dif_neg hloop]
        by_cases hsrc : srcPos < src.length
        · have hdst : ¬ dstPos < origSize := fun hdst => hloop ⟨hsrc, hdst⟩
          fun_cases decompressLoop origSize (src.drop srcPos) dstPos dst with
          | case1 token arg rest hlt | case2 token arg rest hlt => exact absurd hlt hdst
          | case3 => rfl
          | case4 => rfl
        · rw [List.drop_eq_nil_of_le (Nat.le_of_not_lt hsrc), decompressLoop]
          intro token arg rest hnil
          cases hnil

theorem decompressRleFrom_eq (hsize : origSize ≤ dst.length) (hdst : dstPos ≤ origSize) :
    decompressRleFrom src origSize srcPos dstPos dst =
      some (decompressRleLoop origSize (src.drop srcPos) dstPos dst) := by
  induction hleft : src.length - srcPos using Nat.strong_induction_on
    generalizing srcPos dstPos dst with
  | _ left ih =>
      rw [decompressRleFrom]
      by_cases hsrc : srcPos + 1 < src.length
      · have hfirst : srcPos < src.length := Nat.lt_of_succ_lt hsrc
        rw [drop_of_lt hfirst, drop_of_lt hsrc, decompressRleLoop]
        by_cases hmore : dstPos < origSize
        · rw [dif_pos ⟨hsrc, hmore⟩, if_pos hmore, readAt_of_lt hfirst, readAt_of_lt hsrc,
            Option.bind_eq_bind, Option.bind_some, Option.bind_some, fillChecked_eq hsize]
          obtain ⟨hpos, hlen⟩ := @fillLoop_bounds dst origSize dstPos
            (src.getD srcPos 0).toNat (src.getD (srcPos + 1) 0) hdst
          exact ih _ (by omega) (by rwa [hlen]) hpos rfl
        · rw [dif_neg fun h => hmore h.2, if_neg hmore]
      · rw [dif_neg fun h => hsrc h.1]
        -- at most one byte is left
        have hshort : (src.drop srcPos).length ≤ 1 := by
          rw [List.length_drop]
          omega
        rw [decompressRleLoop]
        intro count value rest hdrop
        rw [hdrop] at hshort
        simp only [List.length_cons] at hshort
        omega

theorem decompressLoop_bounds (hdst : dstPos ≤ origSize) :
    (decompressLoop origSize src dstPos dst).1 ≤ origSize ∧
      (decompressLoop origSize src dstPos dst).2.length = dst.length := by
  fun_induction decompressLoop origSize src dstPos dst with
  | case1 dstPos dst token arg rest hlt hmatch r c ih =>
      have hpos : c.1 ≤ origSize := by
        rw [copyLoop_pos hdst]
        exact Nat.min_le_left _ _
      obtain ⟨hend, hlen⟩ := ih hpos
      exact ⟨hend, hlen.trans length_copyLoop⟩
  | case2 dstPos dst token arg rest hlt hmatch ih =>
      obtain ⟨hend, hlen⟩ := ih hlt
      exact ⟨hend, hlen.trans List.length_set⟩
  | case3 => exact ⟨hdst, rfl⟩
  | case4 => exact ⟨hdst, rfl⟩

theorem decompressRleLoop_bounds (hdst : dstPos ≤ origSize) :
    (decompressRleLoop origSize src dstPos dst).1 ≤ origSize ∧
      (decompressRleLoop origSize src dstPos dst).2.length = dst.length := by
  fun_induction decompressRleLoop origSize src dstPos dst with
  | case1 count value rest dstPos dst hlt c ih =>
      obtain ⟨hpos, hkept⟩ := @fillLoop_bounds dst origSize dstPos count.toNat value hdst
      obtain ⟨hend, hlen⟩ := ih hpos
      exact ⟨hend, hlen.trans hkept⟩
  | case2 => exact ⟨hdst, rfl⟩
  | case3 => exact ⟨hdst, rfl⟩

theorem readBytes_of_le (h : ¬ src.length < n) : readBytes src n = some (src.take n) :=
  if_pos (Nat.le_of_not_lt h)

/-- For any input and any output buffer the decoders access only what is in their buffers, and they
return no more than the output buffer holds. -/
theorem decoders_stay_in_bounds (src dst : List UInt8) :
    (decompressLz4Checked src dst = some (decompressLz4 src dst) ∧
        (decompressLz4 src dst).1 ≤ dst.length ∧
          (decompressLz4 src dst).2.length = dst.length) ∧
      decompressRleChecked src dst = some (decompressRle src dst) ∧
        (decompressRle src dst).1 ≤ dst.length ∧
          (decompressRle src dst).2.length = dst.length := by
  rw [decompressLz4Checked, decompressLz4, decompressRleChecked, decompressRle]
  by_cases hshort : src.length < 4
  · rw [if_pos hshort, if_pos hshort, if_pos hshort, if_pos hshort]
    exact ⟨⟨rfl, Nat.zero_le _, rfl⟩, rfl, Nat.zero_le _, rfl⟩
  · rw [if_neg hshort, if_neg hshort, if_neg hshort, if_neg hshort, readBytes_of_le hshort,
      Option.bind_eq_bind, Option.bind_some, Option.bind_some]
    dsimp only
    generalize leNat (src.take 4) = origSize
    by_cases hsize : origSize > dst.length
    · rw [if_pos hsize, if_pos hsize, if_pos hsize, if_pos hsize]
      exact ⟨⟨rfl, Nat.zero_le _, rfl⟩, rfl, Nat.zero_le _, rfl⟩
    · have hfits : origSize ≤ dst.length := Nat.le_of_not_lt hsize
      rw [if_neg hsize, if_neg hsize, if_neg hsize, if_neg hsize]
      obtain ⟨hlz4, hlz4len⟩ := @decompressLoop_bounds (src.drop 4) dst origSize 0 (Nat.zero_le _)
      obtain ⟨hrle, hrlelen⟩ :=
        @decompressRleLoop_bounds (src.drop 4) dst origSize 0 (Nat.zero_le _)
      exact ⟨⟨decompressLz4From_eq hfits, hlz4.trans hfits, hlz4len⟩,
        decompressRleFrom_eq hfits (Nat.zero_le _), hrle.trans hfits, hrlelen⟩

/-! ## What the output buffer held before -/

/-- Every match of the stream, up to its size, copies nothing or starts inside the output of the
tokens before it, which end at `dstPos`. -/
def Grounded (origSize : Nat) (src : List UInt8) (dstPos : Nat) : Prop :=
  match src with
  | token :: arg :: rest =>
      if dstPos < origSize then
        if token &&& 0x80 ≠ 0 then
          ((readMatchLen token rest).1.toNat = 0 ∨ 0 < arg.toNat ∧ arg.toNat ≤ dstPos) ∧
            Grounded origSize (readMatchLen token rest).2
              (min origSize (dstPos + (readMatchLen token rest).1.toNat))
        else Grounded origSize rest (dstPos + 1)
      else True
  | _ => True
termination_by src.length
decreasing_by
  · have := length_readMatchLen token rest
    simp only [List.length_cons]
    omega
  · simp only [List.length_cons]
    omega

/-- The returned length, and the bytes up to that length, are the same. -/
def SameOutput (r r' : Nat × List UInt8) : Prop :=
  r.1 = r'.1 ∧ r.2.take r.1 = r'.2.take r'.1

variable {dst' : List UInt8}

/-- The position moves on by the lengths in the stream. -/
theorem decompressLoop_pos_eq (hdst : dstPos ≤ origSize) :
    (decompressLoop origSize src dstPos dst).1 = (decompressLoop origSize src dstPos dst').1 := by
  fun_induction Grounded origSize src dstPos generalizing dst dst' with
  | case1 dstPos token arg rest hlt hmatch ih =>
      rw [decompressLoop, decompressLoop, if_pos hlt, if_pos hlt, if_pos hmatch, if_pos hmatch]
      dsimp only
      rw [copyLoop_pos hdst, copyLoop_pos hdst]
      exact ih (Nat.min_le_left _ _)
  | case2 dstPos token arg rest hlt hmatch ih =>
      rw [decompressLoop, decompressLoop, if_pos hlt, if_pos hlt, if_neg hmatch, if_neg hmatch]
      exact ih hlt
  | case3 dstPos token arg rest hlt =>
      rw [decompressLoop, decompressLoop, if_neg hlt, if_neg hlt]
  | case4 src dstPos hshort =>
      rw [decompressLoop, decompressLoop] <;> exact hshort

/-- Bytes that are written stay. -/
theorem decompressLoop_frame (hdst : dstPos ≤ origSize) (hk : k < dstPos) :
    (decompressLoop origSize src dstPos dst).2[k]? = dst[k]? ∧
      dstPos ≤ (decompressLoop origSize src dstPos dst).1 := by
  fun_induction decompressLoop origSize src dstPos dst with
  | case1 dstPos dst token arg rest hlt hmatch r c ih =>
      have hpos : c.1 = min origSize (dstPos + r.1.toNat) := copyLoop_pos hdst
      obtain ⟨hbyte, hle⟩ := ih (by omega) (by omega)
      exact ⟨hbyte.trans (getElem?_copyLoop (.inl hk)), by omega⟩
  | case2 dstPos dst token arg rest hlt hmatch ih =>
      obtain ⟨hbyte, hle⟩ := ih hlt (Nat.lt_succ_of_lt hk)
      exact ⟨hbyte.trans (List.getElem?_set_ne (Nat.ne_of_gt hk)), Nat.le_of_succ_le hle⟩
  | case3 => exact ⟨rfl, le_rfl⟩
  | case4 => exact ⟨rfl, le_rfl⟩

/-- Buffers that agree up to a position agree behind a copy from before it. -/
theorem copyLoop_agree (hlen : dst.length = dst'.length) (hsize : origSize ≤ dst.length)
    (hdst : dstPos ≤ origSize) (hagree : ∀ k < dstPos, dst[k]? = dst'[k]?)
    (hback : n = 0 ∨ 0 < offset ∧ offset ≤ dstPos) :
    ∀ k < (copyLoop origSize offset n dstPos dst).1,
      (copyLoop origSize offset n dstPos dst).2[k]? =
        (copyLoop origSize offset n dstPos dst').2[k]? := by
  induction n generalizing dstPos dst dst' with
  | zero => exact hagree
  | succ n ih =>
      obtain ⟨hpos, hle⟩ := hback.resolve_left (Nat.succ_ne_zero n)
      rcases Nat.lt_or_eq_of_le hdst with hlt | rfl
      · have hcopied : dst.getD (dstPos - offset) 0 = dst'.getD (dstPos - offset) 0 := by
          rw [List.getD_eq_getElem?_getD, List.getD_eq_getElem?_getD, hagree _ (by omega)]
        rw [copyLoop_succ_of_lt hlt, copyLoop_succ_of_lt hlt, if_pos hle, if_pos hle]
        refine ih ?_ ?_ hlt (fun k hk => ?_) (.inr ⟨hpos, Nat.le_succ_of_le hle⟩)
        · rw [List.length_set, List.length_set, hlen]
        · rwa [List.length_set]
        · rcases Nat.lt_succ_iff_lt_or_eq.mp hk with hbefore | rfl
          · rw [List.getElem?_set_ne (Nat.ne_of_gt hbefore),
              List.getElem?_set_ne (Nat.ne_of_gt hbefore)]
            exact hagree k hbefore
          · rw [List.getElem?_set_self (by omega), List.getElem?_set_self (by omega), hcopied]
      · rw [copyLoop_of_le le_rfl, copyLoop_of_le le_rfl]
        exact hagree

/-- A grounded stream writes every byte it stands for. -/
theorem decompressLoop_agree (hlen : dst.length = dst'.length) (hsize : origSize ≤ dst.length)
    (hdst : dstPos ≤ origSize) (hagree : ∀ k < dstPos, dst[k]? = dst'[k]?)
    (hground : Grounded origSize src dstPos) :
    ∀ k < (decompressLoop origSize src dstPos dst).1,
      (decompressLoop origSize src dstPos dst).2[k]? =
        (decompressLoop origSize src dstPos dst').2[k]? := by
  fun_induction Grounded origSize src dstPos generalizing dst dst' with
  | case1 dstPos token arg rest hlt hmatch ih =>
      obtain ⟨hback, hrest⟩ := hground
      rw [decompressLoop, decompressLoop, if_pos hlt, if_pos hlt, if_pos hmatch, if_pos hmatch]
      dsimp only
      rw [copyLoop_pos hdst, copyLoop_pos hdst]
      refine ih ?_ ?_ (Nat.min_le_left _ _) (fun k hk => ?_) hrest
      · rw [length_copyLoop, length_copyLoop, hlen]
      · rwa [length_copyLoop]
      · exact copyLoop_agree hlen hsize hdst hagree hback k (by rwa [copyLoop_pos hdst])
  | case2 dstPos token arg rest hlt hmatch ih =>
      rw [decompressLoop, decompressLoop, if_pos hlt, if_pos hlt, if_neg hmatch, if_neg hmatch]
      refine ih ?_ ?_ hlt (fun k hk => ?_) hground
      · rw [List.length_set, List.length_set, hlen]
      · rwa [List.length_set]
      · rcases Nat.lt_succ_iff_lt_or_eq.mp hk with hbefore | rfl
        · rw [List.getElem?_set_ne (Nat.ne_of_gt hbefore),
            List.getElem?_set_ne (Nat.ne_of_gt hbefore)]
          exact hagree k hbefore
        · rw [List.getElem?_set_self (by omega), List.getElem?_set_self (by omega)]
  | case3 dstPos token arg rest hlt =>
      rw [decompressLoop, decompressLoop, if_neg hlt, if_neg hlt]
      exact hagree
  | case4 src dstPos hshort =>
      have hstop : ∀ out, decompressLoop origSize src dstPos out = (dstPos, out) := by
        intro out
        rw [decompressLoop]
        exact hshort
      rw [hstop, hstop]
      exact hagree

/-- The byte of an ungrounded copy is the one that was there. -/
theorem getElem?_copyLoop_stale (hback : ¬ (0 < offset ∧ offset ≤ dstPos))
    (hsize : origSize ≤ dst.length) (hlt : dstPos < origSize) :
    (copyLoop origSize offset (n + 1) dstPos dst).2[dstPos]? = dst[dstPos]? := by
  rw [copyLoop_succ_of_lt hlt, getElem?_copyLoop (.inl (Nat.lt_succ_self dstPos))]
  split
  next hge =>
    obtain rfl : offset = 0 := by omega
    rw [List.getElem?_set_self (by omega), Nat.sub_zero, List.getD_eq_getElem?_getD,
      List.getElem?_eq_getElem (by omega), Option.getD_some]
  next => rfl

/-- From buffers that differ behind `dstPos`, a stream that is not grounded keeps a byte of each. -/
theorem stale_of_not_grounded {b b' : UInt8} (hlen : dst.length = dst'.length)
    (hsize : origSize ≤ dst.length) (hdst : dstPos ≤ origSize)
    (hold : ∀ k, dstPos ≤ k → k < origSize → dst[k]? = some b ∧ dst'[k]? = some b')
    (hground : ¬ Grounded origSize src dstPos) :
    ∃ k < (decompressLoop origSize src dstPos dst).1,
      (decompressLoop origSize src dstPos dst).2[k]? = some b ∧
        (decompressLoop origSize src dstPos dst').2[k]? = some b' := by
  fun_induction Grounded origSize src dstPos generalizing dst dst' with
  | case1 dstPos token arg rest hlt hmatch ih =>
      rw [decompressLoop, decompressLoop, if_pos hlt, if_pos hlt, if_pos hmatch, if_pos hmatch]
      dsimp only
      have hpos : ∀ out, (copyLoop origSize arg.toNat (readMatchLen token rest).1.toNat dstPos
          out).1 = min origSize (dstPos + (readMatchLen token rest).1.toNat) :=
        fun out => copyLoop_pos hdst
      rw [hpos, hpos]
      by_cases hback : (readMatchLen token rest).1.toNat = 0 ∨ 0 < arg.toNat ∧ arg.toNat ≤ dstPos
      · refine ih ?_ ?_ (Nat.min_le_left _ _) (fun k hk hko => ?_) fun hrest =>
          hground ⟨hback, hrest⟩
        · rw [length_copyLoop, length_copyLoop, hlen]
        · rwa [length_copyLoop]
        · rw [getElem?_copyLoop (.inr (by rw [hpos]; exact hk)),
            getElem?_copyLoop (.inr (by rw [hpos]; exact hk))]
          exact hold k (by omega) hko
      · obtain ⟨hne, hnot⟩ := not_or.mp hback
        obtain ⟨n, hn⟩ := Nat.exists_eq_succ_of_ne_zero hne
        have hend : dstPos < min origSize (dstPos + (readMatchLen token rest).1.toNat) := by omega
        refine ⟨dstPos, Nat.lt_of_lt_of_le hend
          (decompressLoop_frame (Nat.min_le_left _ _) hend).2, ?_, ?_⟩
        · rw [(decompressLoop_frame (Nat.min_le_left _ _) hend).1]
          rw [hn, getElem?_copyLoop_stale hnot hsize hlt]
          exact (hold dstPos le_rfl hlt).1
        · rw [(decompressLoop_frame (Nat.min_le_left _ _) hend).1]
          rw [hn, getElem?_copyLoop_stale hnot (hlen ▸ hsize) hlt]
          exact (hold dstPos le_rfl hlt).2
  | case2 dstPos token arg rest hlt hmatch ih =>
      rw [decompressLoop, decompressLoop, if_pos hlt, if_pos hlt, if_neg hmatch, if_neg hmatch]
      refine ih ?_ ?_ hlt (fun k hk hko => ?_) hground
      · rw [List.length_set, List.length_set, hlen]
      · rwa [List.length_set]
      · rw [List.getElem?_set_ne (Nat.ne_of_lt hk), List.getElem?_set_ne (Nat.ne_of_lt hk)]
        exact hold k (Nat.le_of_succ_le hk) hko
  | case3 => exact absurd trivial hground
  | case4 => exact absurd trivial hground

/-- What `decompress_lz4` decodes does not depend on the buffer it decodes into, exactly where the
size is refused or no match of the stream reaches outside of the output before it. -/
theorem decompressLz4_determined_iff (src : List UInt8) (dstCapacity : Nat) :
    (∀ dst dst' : List UInt8, dst.length = dstCapacity → dst'.length = dstCapacity →
        SameOutput (decompressLz4 src dst) (decompressLz4 src dst')) ↔
      src.length < 4 ∨ leNat (src.take 4) > dstCapacity ∨
        Grounded (leNat (src.take 4)) (src.drop 4) 0 := by
  by_cases hshort : src.length < 4
  · refine ⟨fun _ => .inl hshort, fun _ dst dst' _ _ => ?_⟩
    rw [decompressLz4, decompressLz4, if_pos hshort, if_pos hshort]
    exact ⟨rfl, rfl⟩
  · by_cases hsize : leNat (src.take 4) > dstCapacity
    · refine ⟨fun _ => .inr (.inl hsize), fun _ dst dst' hdst hdst' => ?_⟩
      rw [decompressLz4, decompressLz4, if_neg hshort, if_neg hshort]
      dsimp only
      rw [if_pos (hdst ▸ hsize), if_pos (hdst' ▸ hsize)]
      exact ⟨rfl, rfl⟩
    · have hloop : ∀ out : List UInt8, out.length = dstCapacity → decompressLz4 src out =
          decompressLoop (leNat (src.take 4)) (src.drop 4) 0 out := by
        intro out hout
        rw [decompressLz4, if_neg hshort]
        exact if_neg (hout ▸ hsize)
      have hfits := Nat.le_of_not_lt hsize
      simp only [hshort, hsize, false_or]
      constructor
      · intro hsame
        by_contra hground
        have hzero : (List.replicate dstCapacity (0 : UInt8)).length = dstCapacity :=
          List.length_replicate
        have hone : (List.replicate dstCapacity (1 : UInt8)).length = dstCapacity :=
          List.length_replicate
        obtain ⟨k, hk, hbyte, hbyte'⟩ := stale_of_not_grounded (hzero.trans hone.symm)
          (hzero.symm ▸ hfits) (Nat.zero_le _) (fun k _ hk => by
            rw [List.getElem?_replicate, List.getElem?_replicate, if_pos (by omega),
              if_pos (by omega)]
            exact ⟨rfl, rfl⟩) hground
        obtain ⟨hpos, htake⟩ := hsame _ _ hzero hone
        rw [hloop _ hzero, hloop _ hone] at hpos htake
        have hboth : (List.take _ _)[k]? = (List.take _ _)[k]? := congrArg (·[k]?) htake
        rw [List.getElem?_take_of_lt hk, List.getElem?_take_of_lt (hpos ▸ hk), hbyte, hbyte']
          at hboth
        cases hboth
      · intro hground dst dst' hdst hdst'
        have hpos := @decompressLoop_pos_eq (src.drop 4) dst (leNat (src.take 4)) 0 dst'
          (Nat.zero_le _)
        rw [hloop dst hdst, hloop dst' hdst']
        refine ⟨hpos, List.ext_getElem? fun k => ?_⟩
        rw [List.getElem?_take, List.getElem?_take, ← hpos]
        split
        next hk =>
          exact decompressLoop_agree (hdst.trans hdst'.symm) (hdst.symm ▸ hfits) (Nat.zero_le _)
            (fun k hk => absurd hk (Nat.not_lt_zero k)) hground k hk
        next => rfl

/-- A copy of one byte from before the output. -/
theorem decompressLz4_keeps_stale_byte :
    decompressLz4 [1, 0, 0, 0, 0x81, 1] [65] = (1, [65]) ∧
      decompressLz4 [1, 0, 0, 0, 0x81, 1] [66] = (1, [66]) ∧
        ¬ SameOutput (decompressLz4 [1, 0, 0, 0, 0x81, 1] [65])
          (decompressLz4 [1, 0, 0, 0, 0x81, 1] [66]) := by
  have hfirst : decompressLz4 [1, 0, 0, 0, 0x81, 1] [65] = (1, [65]) := by decide +kernel
  have hsecond : decompressLz4 [1, 0, 0, 0, 0x81, 1] [66] = (1, [66]) := by decide +kernel
  refine ⟨hfirst, hsecond, fun hsame => ?_⟩
  rw [hfirst, hsecond] at hsame
  exact absurd hsame.2 (by decide)

end Storage
end InventixDB
