import InventixDB.Sql.Lexer

/-!
# Literals — quoted strings and the token they become

One loop of the lexer finds the end of a literal, another copies its bytes and decodes them.
-/

namespace InventixDB
namespace Sql

open Storage

/-! ## What a literal takes -/

/-- The loop that counts the bytes of a literal before they are copied. -/
def literalLength (quote : UInt8) : List UInt8 → Nat
  | [] => 0
  | [c] => if c = quote then 0 else 1
  | c :: e :: rest =>
      if c = quote then 0
      else if c = 92 then literalLength quote rest + 1
      else literalLength quote (e :: rest) + 1

/-- The bytes copied into the buffer of a literal, with the NUL behind them. -/
def literalBytes (quote : UInt8) (bs : List UInt8) : List UInt8 :=
  (readString quote bs).1 ++ [0]

/-- The size of that buffer. -/
def literalSize (quote : UInt8) (bs : List UInt8) : Nat :=
  literalLength quote bs + 1

theorem readString_length (quote : UInt8) (bs : List UInt8) :
    (readString quote bs).1.length = literalLength quote bs := by
  fun_induction readString quote bs with
  | case1 => rfl
  | case2 => simp [literalLength]
  | case3 c hc => simp [literalLength, hc]
  | case4 => simp [literalLength]
  | case5 e rest hquote ih =>
      rw [literalLength, if_neg hquote, if_pos rfl, ← ih]
      rfl
  | case6 c e rest hquote hslash ih =>
      rw [literalLength, if_neg hquote, if_neg hslash, ← ih]
      rfl

theorem literalBytes_length (quote : UInt8) (bs : List UInt8) :
    (literalBytes quote bs).length = literalSize quote bs := by
  rw [literalBytes, List.length_append, readString_length]
  rfl

/-! ## Written literals -/

/-- The text holds the bytes as a literal between two `quote`s may have them. -/
inductive Written (quote : UInt8) : List UInt8 → List UInt8 → Prop
  | nil : Written quote [] []
  | plain {b : UInt8} {bytes text : List UInt8} (hquote : b ≠ quote) (hslash : b ≠ 92) :
      Written quote bytes text → Written quote (b :: bytes) (b :: text)
  | escaped {e : UInt8} {bytes text : List UInt8} (hend : e ≠ 0) :
      Written quote bytes text → Written quote (unescape e :: bytes) (92 :: e :: text)

variable {quote : UInt8} {bytes text : List UInt8}

theorem readString_quote (q : UInt8) (bs : List UInt8) : readString q (q :: bs) = ([], bs) := by
  cases bs with
  | nil => simp [readString]
  | cons e rest => simp [readString]

theorem readString_plain {q c : UInt8} (bs : List UInt8) (hq : c ≠ q) (hc : c ≠ 92) :
    readString q (c :: bs) = (readString q bs).map (c :: ·) id := by
  cases bs with
  | nil => simp [readString, hq]
  | cons e rest => simp [readString, hq, hc]

theorem readString_escape {q : UInt8} (e : UInt8) (bs : List UInt8) (hq : 92 ≠ q) :
    readString q (92 :: e :: bs) = (readString q bs).map (unescape e :: ·) id := by
  simp [readString, hq]

/-- The lexer reads back what was written, up to the quote behind it. -/
theorem readString_written (hslash : 92 ≠ quote) (hw : Written quote bytes text)
    (rest : List UInt8) : readString quote (text ++ quote :: rest) = (bytes, rest) := by
  induction hw with
  | nil => exact readString_quote quote rest
  | plain hquote hb _ ih =>
      rw [List.cons_append, readString_plain _ hquote hb, ih]
      rfl
  | escaped _ _ ih =>
      rw [List.cons_append, List.cons_append, readString_escape _ _ hslash, ih]
      rfl

theorem Written.zero_mem_iff (hw : Written quote bytes text) : 0 ∈ bytes ↔ 0 ∈ text := by
  induction hw with
  | nil => exact Iff.rfl
  | plain _ _ _ ih => rw [List.mem_cons, List.mem_cons, ih]
  | @escaped e _ _ hend _ ih =>
      have hne : 0 ≠ unescape e := by
        unfold unescape
        split_ifs
        · decide
        · decide
        · exact hend.symm
      simp [hne, hend.symm, ih]

theorem Written.append {bytes' text' : List UInt8} (hw : Written quote bytes text)
    (hw' : Written quote bytes' text') : Written quote (bytes ++ bytes') (text ++ text') := by
  induction hw with
  | nil => exact hw'
  | plain hquote hb _ ih => exact .plain hquote hb ih
  | escaped hend _ ih => exact .escaped hend ih

/-- A text made byte by byte is written when each byte is. -/
theorem Written.flatMap {decode : UInt8 → UInt8} {encode : UInt8 → List UInt8}
    (henc : ∀ b ∈ bytes, Written quote [decode b] (encode b)) :
    Written quote (bytes.map decode) (bytes.flatMap encode) := by
  induction bytes with
  | nil => exact .nil
  | cons b bytes ih =>
      rw [List.map_cons, List.flatMap_cons, ← List.singleton_append]
      exact (henc b List.mem_cons_self).append (ih fun c hc => henc c (List.mem_cons_of_mem _ hc))

/-- A byte of a literal, with quotes, backslashes and control characters escaped. -/
def escapeByte (b : UInt8) : List UInt8 :=
  if b = 10 then [92, 110]
  else if b = 9 then [92, 116]
  else if b = 34 ∨ b = 39 ∨ b = 92 ∨ b < 32 ∨ b = 127 then [92, b]
  else [b]

/-- The bytes of a string as a literal has them. -/
def escape (s : CStr) : List UInt8 :=
  s.val.flatMap escapeByte

/-- A quote opens a literal. -/
def quotes : List UInt8 := [34, 39]

theorem mem_quotes : quote ∈ quotes ↔ quote = 34 ∨ quote = 39 := by
  simp [quotes]

theorem written_escape (hquote : quote ∈ quotes) (s : CStr) :
    Written quote s.val (escape s) := by
  have hbyte : ∀ b ∈ s.val, Written quote [id b] (escapeByte b) := by
    intro b hb
    have hne : b ≠ 0 := by
      rintro rfl
      exact s.property hb
    unfold escapeByte
    split_ifs with hn ht hesc
    · rw [hn]
      exact .escaped (e := 110) (by decide) .nil
    · rw [ht]
      exact .escaped (e := 116) (by decide) .nil
    · have hplain : unescape b = b := by
        unfold unescape
        rw [if_neg, if_neg] <;> (rintro rfl; exact absurd hesc (by decide))
      have hw : Written quote [unescape b] [92, b] := .escaped hne .nil
      rwa [hplain] at hw
    · rw [not_or, not_or, not_or] at hesc
      refine .plain ?_ hesc.2.2.1 .nil
      rcases mem_quotes.mp hquote with rfl | rfl
      · exact hesc.1
      · exact hesc.2.1
  have hw := Written.flatMap hbyte
  rwa [List.map_id] at hw

/-! ## The tokens of a literal -/

theorem byteClass_quote (hquote : quote ∈ quotes) : byteClass quote = .quote := by
  rcases mem_quotes.mp hquote with rfl | rfl <;> decide

theorem ne_of_mem_quotes (hquote : quote ∈ quotes) : 0 ≠ quote ∧ 92 ≠ quote := by
  rcases mem_quotes.mp hquote with rfl | rfl <;> decide

/-- One round of the lexer reads a literal. -/
theorem nextToken_written (hquote : quote ∈ quotes) (hw : Written quote bytes text)
    (line : Nat) (rest : List UInt8) :
    nextToken line quote (text ++ quote :: rest) =
      { token := some { type := .string, value := some (CStr.ofBytes bytes), line := line }
        line := line
        rest := rest } := by
  rw [nextToken, byteClass_quote hquote]
  simp only [readString_written (ne_of_mem_quotes hquote).2 hw]

theorem lex_written (hquote : quote ∈ quotes) (hw : Written quote bytes text) (line : Nat)
    (rest : List UInt8) :
    lex line (quote :: (text ++ quote :: rest)) =
      ({ type := .string, value := some (CStr.ofBytes bytes), line := line } ::
        (lex line rest).1, (lex line rest).2) := by
  rw [lex, nextToken_written hquote hw]
  rfl

/-- A text between two quotes. -/
def quoted (quote : UInt8) (text : List UInt8) : CStr :=
  CStr.ofBytes (quote :: (text ++ [quote]))

theorem quoted_val (hquote : quote ∈ quotes) (htext : 0 ∉ text) :
    (quoted quote text).val = quote :: (text ++ [quote]) := by
  have hzero := (ne_of_mem_quotes hquote).1
  exact CStr.ofBytes_of_notMem (by simp [hzero, htext])

theorem tokenize_written (hquote : quote ∈ quotes) (hw : Written quote bytes text)
    (htext : 0 ∉ text) :
    tokenize (quoted quote text) =
      [{ type := .string, value := some (CStr.ofBytes bytes), line := 1 },
        { type := .eof, value := none, line := 1 }] := by
  rw [tokenize, quoted_val hquote htext, lex_written hquote hw]
  simp [lex]

/-- A string written between quotes, in any way that escapes what must be, is read back as one
token with the string in it, and no literal overruns its buffer. -/
theorem literal_roundTrip :
    (∀ (s : CStr) (quote : UInt8), quote ∈ quotes →
      Written quote s.val (escape s) ∧
      ∀ text, Written quote s.val text →
        tokenize (quoted quote text) =
          [{ type := .string, value := some s, line := 1 },
            { type := .eof, value := none, line := 1 }]) ∧
    ∀ (quote : UInt8) (bs : List UInt8),
      (literalBytes quote bs).length ≤ literalSize quote bs := by
  refine ⟨fun s quote hquote => ⟨written_escape hquote s, fun text hw => ?_⟩, fun quote bs => ?_⟩
  · have htext := mt hw.zero_mem_iff.mpr s.property
    rw [tokenize_written hquote hw htext, CStr.ofBytes_val]
  · exact Nat.le_of_eq (literalBytes_length quote bs)

/-- `it's`, with the quote escaped -/
theorem literal_roundTrip_apostrophe :
    tokenize (quoted 39 [105, 116, 92, 39, 115]) =
      [{ type := .string, value := some (CStr.lit "it's"), line := 1 },
        { type := .eof, value := none, line := 1 }] ∧
    (literalBytes 39 [105, 116, 92]).length ≤ literalSize 39 [105, 116, 92] := by
  refine ⟨(literal_roundTrip.1 (CStr.lit "it's") 39 (by decide)).2 _ ?_,
    literal_roundTrip.2 39 [105, 116, 92]⟩
  have hval : (CStr.lit "it's").val = [105, 116, unescape 39, 115] := by decide +kernel
  rw [hval]
  exact .plain (by decide) (by decide) (.plain (by decide) (by decide)
    (.escaped (by decide) (.plain (by decide) (by decide) .nil)))

end Sql
end InventixDB
