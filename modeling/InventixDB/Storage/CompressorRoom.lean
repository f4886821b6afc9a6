import InventixDB.Storage.Rle

/-!
# CompressorRoom — what the compressors do when the destination is too small

Both compressors return 0 for a destination without room for the header, and the length of what they
have written so far for one that is too small behind it.
-/

namespace InventixDB
namespace Storage

open Lib.ByteCodec

/-! ## Complete encodings -/

def lz4Encoding (src : List UInt8) : List UInt8 :=
  leBytes 4 src.length ++ tokensFrom src 0

def rleEncoding (src : List UInt8) : List UInt8 :=
  leBytes 4 src.length ++ runsFrom src 0

/-- The last token from `srcPos` on is a match of two bytes, for which three must be free. -/
def endsInShortMatch (src : List UInt8) (srcPos : Nat) : Bool :=
  (tokenStarts src srcPos).getLast?.any fun p =>
    4 ≤ (bestMatch src p).len && (bestMatch src p).len ≤ 15

/-- The capacity for which `compress_lz4` gets to the end of its input. -/
def lz4Room (src : List UInt8) : Nat :=
  (lz4Encoding src).length + (endsInShortMatch src 0).toNat

/-- A destination that is too small for the encoding makes the compressor return 0, and any other
return value is the length of the whole encoding. -/
def ReportsOverflow (compress : List UInt8 → Nat → List UInt8)
    (encoding : List UInt8 → List UInt8) (src : List UInt8) (dstCapacity : Nat) : Prop :=
  (dstCapacity < (encoding src).length → compress src dstCapacity = []) ∧
    (compress src dstCapacity ≠ [] → compress src dstCapacity = encoding src)

/-! ## Where the loops end -/

variable {src : List UInt8} {srcPos dstCapacity : Nat}

theorem length_tokenAt_ge (src : List UInt8) (srcPos : Nat) : 2 ≤ (tokenAt src srcPos).length := by
  rw [tokenAt]
  split
  · rw [matchToken, List.length_append]
    exact Nat.le_add_right 2 _
  · exact le_rfl

theorem length_tokensFrom_ge (hpos : srcPos < src.length) : 2 ≤ (tokensFrom src srcPos).length := by
  have htoken := length_tokenAt_ge src srcPos
  rw [tokensFrom_of_lt hpos, List.length_append]
  omega

/-- Only the last token decides. -/
theorem endsInShortMatch_next (hpos : srcPos < src.length)
    (hmore : nextToken src srcPos < src.length) :
    endsInShortMatch src srcPos = endsInShortMatch src (nextToken src srcPos) := by
  have hstarts : tokenStarts src srcPos = srcPos :: tokenStarts src (nextToken src srcPos) := by
    rw [tokenStarts, if_pos hpos]
  have hnext : tokenStarts src (nextToken src srcPos) =
      nextToken src srcPos :: tokenStarts src (nextToken src (nextToken src srcPos)) := by
    rw [tokenStarts, if_pos hmore]
  rw [endsInShortMatch, endsInShortMatch, hstarts, hnext, List.getLast?_cons_cons]

theorem endsInShortMatch_last (hpos : srcPos < src.length)
    (hend : src.length ≤ nextToken src srcPos) :
    endsInShortMatch src srcPos =
      (4 ≤ (bestMatch src srcPos).len && (bestMatch src srcPos).len ≤ 15 : Bool) := by
  have hstarts : tokenStarts src srcPos = [srcPos] := by
    rw [tokenStarts, if_pos hpos, tokenStarts, if_neg (by omega)]
  rw [endsInShortMatch, hstarts]
  rfl

/-- The room for a match at `srcPos` is three bytes, also where its token has two. -/
theorem three_le_room (hpos : srcPos < src.length) (hlen : (bestMatch src srcPos).len ≥ 4) :
    3 ≤ (tokensFrom src srcPos).length + (endsInShortMatch src srcPos).toNat := by
  by_cases hmore : nextToken src srcPos < src.length
  · have htoken := length_tokenAt_ge src srcPos
    have hrest := length_tokensFrom_ge hmore
    rw [tokensFrom_of_lt hpos, List.length_append]
    omega
  · rw [tokensFrom_of_lt hpos, tokensFrom_of_le (Nat.le_of_not_lt hmore), List.append_nil,
      endsInShortMatch_last hpos (Nat.le_of_not_lt hmore), tokenAt, if_pos hlen, matchToken]
    by_cases hlong : (bestMatch src srcPos).len > 15
    · rw [if_pos hlong, if_pos hlong]
      exact Nat.le_add_right 3 _
    · rw [if_neg hlong, if_neg hlong, decide_eq_true hlen, decide_eq_true (Nat.le_of_not_lt hlong)]
      exact le_rfl

/-- And a match for which three bytes are free fits. -/
theorem room_last_le (hpos : srcPos < src.length) (hlen : (bestMatch src srcPos).len ≥ 4)
    (hend : src.length ≤ nextToken src srcPos) :
    (tokensFrom src srcPos).length + (endsInShortMatch src srcPos).toNat ≤ 3 := by
  rw [tokensFrom_of_lt hpos, tokensFrom_of_le hend, List.append_nil,
    endsInShortMatch_last hpos hend, tokenAt, if_pos hlen, matchToken]
  by_cases hlong : (bestMatch src srcPos).len > 15
  · rw [if_pos hlong, if_pos hlong, decide_eq_false (Nat.not_le_of_lt hlong), Bool.and_false]
    exact le_rfl
  · rw [if_neg hlong, if_neg hlong]
    exact Nat.add_le_add_left (Bool.toNat_le _) 2

/-- Behind a token the loop needs the room of the tokens that follow. -/
theorem room_next (hpos : srcPos < src.length) (hmore : nextToken src srcPos < src.length) :
    (tokensFrom src srcPos).length + (endsInShortMatch src srcPos).toNat =
      (tokenAt src srcPos).length + ((tokensFrom src (nextToken src srcPos)).length +
        (endsInShortMatch src (nextToken src srcPos)).toNat) := by
  rw [tokensFrom_of_lt hpos, List.length_append, endsInShortMatch_next hpos hmore, Nat.add_assoc]

theorem tokensFrom_ne_nil (hpos : srcPos < src.length) : tokensFrom src srcPos ≠ [] := by
  have hlen := length_tokensFrom_ge hpos
  intro hnil
  rw [hnil] at hlen
  exact absurd hlen (by decide)

theorem dst_append_tokensFrom (hpos : srcPos < src.length) (dst : List UInt8) :
    dst ++ tokensFrom src srcPos =
      dst ++ tokenAt src srcPos ++ tokensFrom src (nextToken src srcPos) := by
  rw [tokensFrom_of_lt hpos, List.append_assoc]

/-- The loop gets to the end of its input exactly where there is room for the tokens to come. -/
theorem compressLoop_eq_iff {dst : List UInt8} (hpos : srcPos ≤ src.length) :
    compressLoop src dstCapacity srcPos dst = dst ++ tokensFrom src srcPos ↔
      srcPos = src.length ∨
        dst.length + ((tokensFrom src srcPos).length + (endsInShortMatch src srcPos).toNat) ≤
          dstCapacity := by
  fun_induction compressLoop src dstCapacity srcPos dst with
  | case1 srcPos dst hloop best hlen hfull =>
      have hroom := three_le_room hloop.1 hlen
      refine ⟨fun h => absurd (List.self_eq_append_right.mp h) (tokensFrom_ne_nil hloop.1), ?_⟩
      rintro (rfl | hcap)
      · exact absurd hloop.1 (Nat.lt_irrefl _)
      · omega
  | case2 srcPos dst hloop best hlen hfull ih =>
      have hnext : nextToken src srcPos = srcPos + best.len := if_pos hlen
      have htoken : tokenAt src srcPos = matchToken best := if_pos hlen
      have hle := nextToken_le hloop.1
      have hrest := ih (hnext ▸ hle)
      rw [← hnext, ← htoken, List.length_append, Nat.add_assoc] at hrest
      rw [dst_append_tokensFrom hloop.1, ← hnext, ← htoken]
      refine hrest.trans ?_
      rcases Nat.lt_or_eq_of_le hle with hmore | hend
      · rw [room_next hloop.1 hmore]
        simp only [Nat.ne_of_lt hmore, Nat.ne_of_lt hloop.1, false_or]
      · have hroom := room_last_le hloop.1 hlen (Nat.le_of_eq hend.symm)
        exact ⟨fun _ => .inr (by omega), fun _ => .inl hend⟩
  | case3 srcPos dst hloop best hlen hfull =>
      have hroom := length_tokensFrom_ge hloop.1
      refine ⟨fun h => absurd (List.self_eq_append_right.mp h) (tokensFrom_ne_nil hloop.1), ?_⟩
      rintro (rfl | hcap)
      · exact absurd hloop.1 (Nat.lt_irrefl _)
      · omega
  | case4 srcPos dst hloop best hlen hfull ih =>
      have hnext : nextToken src srcPos = srcPos + 1 := if_neg hlen
      have htoken : tokenAt src srcPos = [0x00, src[srcPos]] := by
        rw [tokenAt, if_neg hlen, List.getD_eq_getElem?_getD, List.getElem?_eq_getElem hloop.1,
          Option.getD_some]
      have hle := nextToken_le hloop.1
      have hrest := ih (hnext ▸ hle)
      rw [← hnext, ← htoken, List.length_append, Nat.add_assoc] at hrest
      rw [dst_append_tokensFrom hloop.1, ← hnext, ← htoken]
      refine hrest.trans ?_
      rcases Nat.lt_or_eq_of_le hle with hmore | hend
      · rw [room_next hloop.1 hmore]
        simp only [Nat.ne_of_lt hmore, Nat.ne_of_lt hloop.1, false_or]
      · have hshort : endsInShortMatch src srcPos = false := by
          rw [endsInShortMatch_last hloop.1 (Nat.le_of_eq hend.symm), decide_eq_false hlen,
            Bool.false_and]
        rw [tokensFrom_of_lt hloop.1, tokensFrom_of_le (Nat.le_of_eq hend.symm), List.append_nil,
          hshort, htoken]
        refine ⟨fun _ => .inr ?_, fun _ => .inl hend⟩
        simp only [List.length_cons, List.length_nil, Bool.toNat_false]
        omega
  | case5 srcPos dst hloop =>
      rcases Nat.lt_or_eq_of_le hpos with hmore | rfl
      · have hroom := length_tokensFrom_ge hmore
        refine ⟨fun h => absurd (List.self_eq_append_right.mp h) (tokensFrom_ne_nil hmore), ?_⟩
        rintro (rfl | hcap)
        · exact absurd hmore (Nat.lt_irrefl _)
        · omega
      · rw [tokensFrom_of_le le_rfl, List.append_nil]
        exact ⟨fun _ => .inl rfl, fun _ => rfl⟩

theorem compressRleLoop_eq_iff {i : Nat} {dst : List UInt8} (hi : i ≤ src.length) :
    compressRleLoop src dstCapacity i dst = dst ++ runsFrom src i ↔
      i = src.length ∨ dst.length + (runsFrom src i).length ≤ dstCapacity := by
  fun_induction compressRleLoop src dstCapacity i dst with
  | case1 i dst hloop ih =>
      have hin := (runAt_agrees hloop.1).1
      have hruns := runsFrom_of_lt hloop.1
      have hlen := congrArg List.length hruns
      rw [List.length_append] at hlen
      rw [hruns, ← List.append_assoc, ← hruns, hlen, ← Nat.add_assoc, ← List.length_append]
      refine (ih hin).trans ?_
      rcases Nat.lt_or_eq_of_le hin with hmore | hend
      · simp only [Nat.ne_of_lt hmore, Nat.ne_of_lt hloop.1, false_or]
      · refine ⟨fun _ => .inr ?_, fun _ => .inl hend⟩
        rw [runsFrom_of_le (Nat.le_of_eq hend.symm), List.length_append]
        exact hloop.2
  | case2 i dst hloop =>
      rcases Nat.lt_or_eq_of_le hi with hmore | rfl
      · have hsplit := congrArg List.length (runsFrom_of_lt hmore)
        simp only [List.length_append, List.length_cons, List.length_nil] at hsplit
        have hne : runsFrom src i ≠ [] := by
          intro hnil
          rw [hnil] at hsplit
          simp only [List.length_nil] at hsplit
          omega
        refine ⟨fun h => absurd (List.self_eq_append_right.mp h) hne, ?_⟩
        rintro (rfl | hcap)
        · exact absurd hmore (Nat.lt_irrefl _)
        · omega
      · rw [runsFrom_of_le le_rfl, List.append_nil]
        exact ⟨fun _ => .inl rfl, fun _ => rfl⟩

/-- The header stays. -/
theorem le_length_compressLoop (src : List UInt8) (dstCapacity srcPos : Nat) (dst : List UInt8) :
    dst.length ≤ (compressLoop src dstCapacity srcPos dst).length := by
  fun_induction compressLoop src dstCapacity srcPos dst with
  | case1 => exact le_rfl
  | case2 srcPos dst hloop best hlen hfull ih =>
      rw [List.length_append] at ih
      exact (Nat.le_add_right _ _).trans ih
  | case3 => exact le_rfl
  | case4 srcPos dst hloop best hlen hfull ih =>
      rw [List.length_append] at ih
      exact (Nat.le_add_right _ _).trans ih
  | case5 => exact le_rfl

theorem le_length_compressRleLoop (src : List UInt8) (dstCapacity i : Nat) (dst : List UInt8) :
    dst.length ≤ (compressRleLoop src dstCapacity i dst).length := by
  fun_induction compressRleLoop src dstCapacity i dst with
  | case1 i dst hloop ih =>
      rw [List.length_append] at ih
      exact (Nat.le_add_right _ _).trans ih
  | case2 => exact le_rfl

theorem ne_nil_of_header {dst out : List UInt8} (hlen : dst.length = 4)
    (hle : dst.length ≤ out.length) : out ≠ [] := by
  rintro rfl
  rw [hlen] at hle
  exact absurd hle (by decide)

/-! ## Overflow -/

/-- A compressor that returns something either way reports an overflow only if there is none. -/
theorem reportsOverflow_iff {compress : List UInt8 → Nat → List UInt8}
    {encoding : List UInt8 → List UInt8} {room : Nat} (hne : compress src dstCapacity ≠ [])
    (hroom : (encoding src).length ≤ room)
    (heq : compress src dstCapacity = encoding src ↔ room ≤ dstCapacity) :
    ReportsOverflow compress encoding src dstCapacity ↔ room ≤ dstCapacity := by
  constructor
  · rintro ⟨_, hwhole⟩
    exact heq.mp (hwhole hne)
  · intro hle
    exact ⟨fun hlt => absurd (hroom.trans hle) (Nat.not_le_of_lt hlt), fun _ => heq.mpr hle⟩

theorem compressLz4_reports_iff (hne : src ≠ []) (hcap : 4 ≤ dstCapacity) :
    ReportsOverflow compressLz4 lz4Encoding src dstCapacity ↔ lz4Room src ≤ dstCapacity := by
  have hpos : 0 < src.length := List.length_pos_iff.mpr hne
  have hloop : compressLz4 src dstCapacity =
      compressLoop src dstCapacity 0 (leBytes 4 src.length) := by
    rw [compressLz4, if_neg (by omega)]
  have heq : compressLz4 src dstCapacity = lz4Encoding src ↔ lz4Room src ≤ dstCapacity := by
    rw [hloop, lz4Encoding, compressLoop_eq_iff (Nat.zero_le _), lz4Room, lz4Encoding,
      List.length_append, Nat.add_assoc]
    simp only [(Nat.ne_of_gt hpos).symm, false_or]
  refine reportsOverflow_iff ?_ (Nat.le_add_right _ _) heq
  rw [hloop]
  exact ne_nil_of_header (length_leBytes 4 _) (le_length_compressLoop _ _ _ _)

theorem compressRle_reports_iff (hne : src ≠ []) (hcap : 4 ≤ dstCapacity) :
    ReportsOverflow compressRle rleEncoding src dstCapacity ↔
      (rleEncoding src).length ≤ dstCapacity := by
  have hpos : 0 < src.length := List.length_pos_iff.mpr hne
  have hloop : compressRle src dstCapacity =
      compressRleLoop src dstCapacity 0 (leBytes 4 src.length) := by
    rw [compressRle, if_neg (by omega)]
  have heq : compressRle src dstCapacity = rleEncoding src ↔
      (rleEncoding src).length ≤ dstCapacity := by
    rw [hloop, rleEncoding, compressRleLoop_eq_iff (Nat.zero_le _), List.length_append]
    simp only [(Nat.ne_of_gt hpos).symm, false_or]
  refine reportsOverflow_iff ?_ le_rfl heq
  rw [hloop]
  exact ne_nil_of_header (length_leBytes 4 _) (le_length_compressRleLoop _ _ _ _)

/-- The compressors report an overflow exactly where there is none behind the header. -/
theorem compressors_report_iff (src : List UInt8) (dstCapacity : Nat) :
    (ReportsOverflow compressLz4 lz4Encoding src dstCapacity ∧
        ReportsOverflow compressRle rleEncoding src dstCapacity) ↔
      src = [] ∨ dstCapacity < 4 ∨
        (lz4Room src ≤ dstCapacity ∧ (rleEncoding src).length ≤ dstCapacity) := by
  by_cases hzero : src = [] ∨ dstCapacity < 4
  · have hlen : src.length = 0 ∨ dstCapacity < 4 := hzero.imp_left (congrArg List.length)
    have hlz4 : compressLz4 src dstCapacity = [] := if_pos hlen
    have hrle : compressRle src dstCapacity = [] := if_pos hlen
    refine ⟨fun _ => hzero.imp_right .inl, fun _ => ⟨?_, ?_⟩⟩
    · exact ⟨fun _ => hlz4, fun hne => absurd hlz4 hne⟩
    · exact ⟨fun _ => hrle, fun hne => absurd hrle hne⟩
  · obtain ⟨hne, hcap⟩ := not_or.mp hzero
    rw [compressLz4_reports_iff hne (Nat.le_of_not_lt hcap),
      compressRle_reports_iff hne (Nat.le_of_not_lt hcap)]
    simp only [hne, hcap, false_or]

/-- Six bytes hold the header and one of two literals, or one of two runs. -/
theorem compressors_truncate :
    (lz4Encoding [1, 2]).length = 8 ∧ compressLz4 [1, 2] 6 = [2, 0, 0, 0, 0, 1] ∧
      compressRle [1, 2] 6 = [2, 0, 0, 0, 1, 1] ∧
        ¬ (ReportsOverflow compressLz4 lz4Encoding [1, 2] 6 ∧
          ReportsOverflow compressRle rleEncoding [1, 2] 6) := by
  have hlen : (lz4Encoding [1, 2]).length = 8 := by decide +kernel
  have hout : compressLz4 [1, 2] 6 = [2, 0, 0, 0, 0, 1] := by decide +kernel
  refine ⟨hlen, hout, by decide +kernel, fun h => ?_⟩
  have hzero := h.1.1 (by rw [hlen]; decide)
  rw [hout] at hzero
  cases hzero

end Storage
end InventixDB
