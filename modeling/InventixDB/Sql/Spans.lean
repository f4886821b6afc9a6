import InventixDB.Sql.Lexer

/-!
# Spans — which bytes of a query belong to its tokens

Each round of the lexer goes past some bytes, and the bytes of the rounds that add no token belong
to none.  A query is spelled out when all of those are blanks.
-/

namespace InventixDB
namespace Sql

open Storage

/-! ## What a round goes past -/

/-- The bytes one round goes past, and the token they belong to. -/
structure Span where
  bytes : List UInt8
  token : Option Token

/-- The bytes in front of what the round leaves. -/
def Round.span (round : Round) (bs : List UInt8) : Span where
  bytes := bs.take (bs.length - round.rest.length)
  token := round.token

/-- The rounds `lex` makes. -/
def spans (line : Nat) : List UInt8 → List Span
  | [] => []
  | c :: rest =>
      let round := nextToken line c rest
      round.span (c :: rest) :: spans round.line round.rest
termination_by bs => bs.length
decreasing_by exact Nat.lt_succ_of_le (nextToken_length_le line c rest)

theorem readString_suffix (quote : UInt8) (bs : List UInt8) : (readString quote bs).2 <:+ bs := by
  fun_induction readString quote bs with
  | case1 => exact List.suffix_refl _
  | case2 => exact List.nil_suffix
  | case3 => exact List.nil_suffix
  | case4 => exact List.suffix_cons _ _
  | case5 e rest _ ih => exact (ih.trans (List.suffix_cons _ _)).trans (List.suffix_cons _ _)
  | case6 c e rest _ _ ih => exact ih.trans (List.suffix_cons _ _)

theorem nextToken_suffix (line : Nat) (c : UInt8) (rest : List UInt8) :
    (nextToken line c rest).rest <:+ rest := by
  unfold nextToken
  cases byteClass c with
  | space => exact List.suffix_refl _
  | symbol type => exact List.suffix_refl _
  | quote => exact readString_suffix c rest
  | digit => exact List.dropWhile_suffix _
  | word => exact List.dropWhile_suffix _
  | unexpected => exact List.suffix_refl _

/-- A round skips nothing: its bytes and what it leaves are what it found. -/
theorem Round.span_append {round : Round} {bs : List UInt8} (hsuffix : round.rest <:+ bs) :
    (round.span bs).bytes ++ round.rest = bs := by
  obtain ⟨front, rfl⟩ := hsuffix
  simp [Round.span]

/-- The spans are the input, piece by piece. -/
theorem spans_bytes (line : Nat) (bs : List UInt8) : (spans line bs).flatMap Span.bytes = bs := by
  fun_induction spans line bs with
  | case1 => rfl
  | case2 line c rest round ih =>
      rw [List.flatMap_cons, ih]
      exact Round.span_append ((nextToken_suffix line c rest).trans (List.suffix_cons _ _))

/-- And their tokens are those of the input. -/
theorem spans_tokens (line : Nat) (bs : List UInt8) :
    (spans line bs).flatMap (fun s => s.token.toList) = (lex line bs).1 := by
  fun_induction spans line bs with
  | case1 => rw [lex, List.flatMap_nil]
  | case2 line c rest round ih =>
      rw [lex, List.flatMap_cons, ih]
      rfl

/-- Only blanks belong to no token. -/
def BytesBelong (input : CStr) : Prop :=
  ∀ s ∈ spans 1 input.val, s.token = none → s.bytes.all CStr.isSpace = true

instance decidableBytesBelong (input : CStr) : Decidable (BytesBelong input) :=
  inferInstanceAs (Decidable (∀ s ∈ spans 1 input.val, _))

/-! ## Bytes that start nothing -/

/-- Where a reader of the input is. -/
inductive Place
  | between
  | word
  | number
  | literal (quote : UInt8)
  | escaped (quote : UInt8)
  deriving DecidableEq

namespace Place

/-- Outside literals a byte is a blank or a symbol, or starts something. -/
def start (c : UInt8) : Option Place :=
  match byteClass c with
  | .space => some .between
  | .symbol _ => some .between
  | .quote => some (.literal c)
  | .digit => some .number
  | .word => some .word
  | .unexpected => none

/-- Behind the byte, if it has a place in the input. -/
def next : Place → UInt8 → Option Place
  | between, c => start c
  | word, c => if isWordByte c then some .word else start c
  | number, c => if isNumberByte c then some .number else start c
  | literal quote, c =>
      if c = quote then some .between else if c = 92 then some (.escaped quote)
      else some (.literal quote)
  | escaped quote, _ => some (.literal quote)

/-- Each byte has its place. -/
def Fits (place : Place) (bs : List UInt8) : Prop :=
  (bs.foldlM next place).isSome

end Place

/-- Outside the literals of the input each byte is a blank, a symbol or part of a word or number. -/
def Spelled (input : CStr) : Prop :=
  Place.between.Fits input.val

namespace Place

variable {place : Place} {c : UInt8} {bs : List UInt8}

theorem fits_nil : place.Fits [] :=
  rfl

theorem fits_cons : place.Fits (c :: bs) ↔ ∃ behind ∈ place.next c, behind.Fits bs := by
  rw [Fits, List.foldlM_cons]
  cases place.next c with
  | none => simp
  | some behind => simp [Fits]

/-- A run of bytes goes on as long as they are of its kind. -/
theorem fits_run (place : Place) (inside : UInt8 → Bool)
    (hnext : ∀ c, place.next c = if inside c then some place else start c) :
    place.Fits bs ↔ between.Fits (bs.dropWhile inside) := by
  induction bs with
  | nil => exact Iff.rfl
  | cons c bs ih =>
      rw [fits_cons, hnext]
      by_cases hc : inside c
      · rw [if_pos hc, List.dropWhile_cons_of_pos hc, ← ih]
        simp
      · rw [if_neg hc, List.dropWhile_cons_of_neg hc, fits_cons]
        rfl

theorem fits_literal {quote : UInt8} :
    (literal quote).Fits bs ↔ between.Fits (readString quote bs).2 := by
  fun_induction readString quote bs with
  | case1 => exact iff_of_true fits_nil fits_nil
  | case2 => simp [fits_cons, next, fits_nil]
  | case3 c hne =>
      refine iff_of_true ?_ fits_nil
      rw [fits_cons, next, if_neg hne]
      split
      · exact ⟨_, rfl, fits_nil⟩
      · exact ⟨_, rfl, fits_nil⟩
  | case4 e rest => simp [fits_cons, next]
  | case5 e rest hne ih =>
      -- the byte behind a backslash is never the closing quote
      rw [fits_cons, next, if_neg hne, if_pos rfl]
      simpa [fits_cons, next] using ih
  | case6 c e rest hne hplain ih =>
      rw [fits_cons, next, if_neg hne, if_neg hplain]
      simpa using ih

/-- A round ends where the places of its bytes do. -/
theorem fits_round (line : Nat) (c : UInt8) (rest : List UInt8) :
    between.Fits (c :: rest) ↔
      byteClass c ≠ .unexpected ∧ between.Fits (nextToken line c rest).rest := by
  rw [fits_cons, next, start, nextToken]
  cases byteClass c with
  | space => simp
  | symbol type => simp
  | quote => simp [fits_literal]
  | digit => simp [fits_run .number isNumberByte fun _ => rfl]
  | word => simp [fits_run .word isWordByte fun _ => rfl]
  | unexpected => simp

end Place

theorem isSpace_of_byteClass {c : UInt8} (hc : byteClass c = .space) : CStr.isSpace c = true := by
  by_contra hspace
  rw [byteClass, if_neg hspace] at hc
  split at hc
  · cases hc
  · split_ifs at hc

theorem isSpace_of_unexpected {c : UInt8} (hc : byteClass c = .unexpected) :
    CStr.isSpace c = false := by
  by_contra hspace
  rw [byteClass, if_pos (Bool.eq_true_of_not_eq_false hspace)] at hc
  cases hc

/-- The bytes of a round belong somewhere, unless it finds one it does not know. -/
theorem span_belongs_iff (line : Nat) (c : UInt8) (rest : List UInt8) :
    ((nextToken line c rest).token = none →
        ((nextToken line c rest).span (c :: rest)).bytes.all CStr.isSpace = true) ↔
      byteClass c ≠ .unexpected := by
  rw [Round.span, nextToken]
  cases hclass : byteClass c with
  | space => simp [isSpace_of_byteClass hclass]
  | symbol type => simp
  | quote => simp
  | digit => simp
  | word => simp
  | unexpected => simp [isSpace_of_unexpected hclass]

/-- No byte is lost exactly when each has a place. -/
theorem belong_iff (line : Nat) (bs : List UInt8) :
    (∀ s ∈ spans line bs, s.token = none → s.bytes.all CStr.isSpace) ↔ Place.between.Fits bs := by
  fun_induction spans line bs with
  | case1 => simp [Place.fits_nil]
  | case2 line c rest round ih =>
      rw [List.forall_mem_cons, ih, Place.fits_round line]
      exact and_congr_left' (span_belongs_iff line c rest)

theorem bytesBelong_iff {input : CStr} : BytesBelong input ↔ Spelled input :=
  belong_iff 1 input.val

end Sql
end InventixDB
