import InventixDB.Sql.Literals

/-!
# Pieces — the rounds of the lexer over a text with markers

The lexer reads a text in rounds.  Cutting the text where the rounds end makes statements about it
inductions over a list.  A `?` between tokens is a piece of its own: the lexer drops it, and a
prepared statement calls it a marker.
-/

namespace InventixDB
namespace Sql

open Storage

/-! ## Where a round ends -/

/-- Whether `b`, right behind a token that starts with `c`, would belong to that token. -/
def continues (c b : UInt8) : Bool :=
  match byteClass c with
  | .digit => isNumberByte b
  | .word => isWordByte b
  | _ => false

/-- What `readString` reads does not depend on what follows, unless the closing quote is missing. -/
theorem readString_frame (q : UInt8) (bs : List UInt8) :
    ∃ used, bs = used ++ (readString q bs).2 ∧
      ∀ X, ((readString q bs).2 = [] → X = []) →
        readString q (used ++ X) = ((readString q bs).1, X) := by
  fun_induction readString q bs with
  | case1 => exact ⟨[], rfl, fun X hX => by simp [hX rfl, readString]⟩
  | case2 => exact ⟨[q], rfl, fun X hX => by simp [hX rfl, readString]⟩
  | case3 c hc => exact ⟨[c], rfl, fun X hX => by simp [hX rfl, readString, hc]⟩
  | case4 e rest => exact ⟨[q], rfl, fun X _ => readString_quote q X⟩
  | case5 e rest hq ih =>
      obtain ⟨used, hrest, hframe⟩ := ih
      refine ⟨92 :: e :: used, by simpa using hrest, fun X hX => ?_⟩
      rw [List.cons_append, List.cons_append, readString_escape e _ hq, hframe X hX]
      rfl
  | case6 c e rest hq hc ih =>
      obtain ⟨used, hrest, hframe⟩ := ih
      refine ⟨c :: used, by simpa using hrest, fun X hX => ?_⟩
      rw [List.cons_append, readString_plain _ hq hc, hframe X hX]
      rfl

theorem takeWhile_frame {p : UInt8 → Bool} (bs : List UInt8) {X : List UInt8}
    (hX : ∀ b ∈ X.head?, p b = false) :
    (bs.takeWhile p ++ X).takeWhile p = bs.takeWhile p ∧
      (bs.takeWhile p ++ X).dropWhile p = X := by
  have hall : ∀ b ∈ bs.takeWhile p, p b = true := fun b hb => List.mem_takeWhile_imp hb
  rw [List.takeWhile_append_of_pos hall, List.dropWhile_append_of_pos hall]
  cases X with
  | nil => simp
  | cons b X => simp [hX b rfl]

/-- A round reads the same token when other text follows it, as long as that text does not
continue the token. -/
theorem nextToken_frame (line : Nat) (c : UInt8) (rest : List UInt8) :
    ∃ used, rest = used ++ (nextToken line c rest).rest ∧
      ∀ l X, (byteClass c = .quote → (nextToken line c rest).rest = [] → X = []) →
        (∀ b ∈ X.head?, continues c b = false) →
          nextToken l c (used ++ X) = { nextToken l c rest with rest := X } := by
  unfold nextToken continues
  cases byteClass c with
  | space => exact ⟨[], rfl, fun _ _ _ _ => rfl⟩
  | symbol type => exact ⟨[], rfl, fun _ _ _ _ => rfl⟩
  | unexpected => exact ⟨[], rfl, fun _ _ _ _ => rfl⟩
  | quote =>
      obtain ⟨used, hrest, hframe⟩ := readString_frame c rest
      refine ⟨used, hrest, fun l X hX _ => ?_⟩
      simp only [hframe X (hX rfl)]
  | digit =>
      refine ⟨rest.takeWhile isNumberByte, List.takeWhile_append_dropWhile.symm,
        fun l X _ hcont => ?_⟩
      obtain ⟨htake, hdrop⟩ := takeWhile_frame rest hcont
      simp only [htake, hdrop]
  | word =>
      refine ⟨rest.takeWhile isWordByte, List.takeWhile_append_dropWhile.symm,
        fun l X _ hcont => ?_⟩
      obtain ⟨htake, hdrop⟩ := takeWhile_frame rest hcont
      simp only [htake, hdrop]

/-- A round goes on as long as it can. -/
theorem nextToken_maximal (line : Nat) (c : UInt8) (rest : List UInt8) :
    ∀ b ∈ (nextToken line c rest).rest.head?, continues c b = false := by
  intro b hb
  unfold nextToken at hb
  unfold continues
  cases hclass : byteClass c with
  | space => rfl
  | symbol type => rfl
  | unexpected => rfl
  | quote => rfl
  | digit =>
      rw [hclass] at hb
      have hhead : (rest.dropWhile isNumberByte).head? = some b := hb
      have hnot := List.head?_dropWhile_not isNumberByte rest
      rw [hhead] at hnot
      exact hnot
  | word =>
      rw [hclass] at hb
      have hhead : (rest.dropWhile isWordByte).head? = some b := hb
      have hnot := List.head?_dropWhile_not isWordByte rest
      rw [hhead] at hnot
      exact hnot

/-! ## Pieces -/

inductive Piece
  | marker
  | text (c : UInt8) (used : List UInt8)

def Piece.bytes : Piece → List UInt8
  | .marker => [63]
  | .text c used => c :: used

/-- The text of a round after its first byte. -/
def usedBy (c : UInt8) (rest : List UInt8) : List UInt8 :=
  rest.take (rest.length - (nextToken 0 c rest).rest.length)

def pieces : List UInt8 → List Piece
  | [] => []
  | c :: rest =>
      if c = 63 then .marker :: pieces rest
      else .text c (usedBy c rest) :: pieces (nextToken 0 c rest).rest
termination_by bs => bs.length
decreasing_by
  · exact Nat.lt_succ_self _
  · exact Nat.lt_succ_of_le (nextToken_length_le 0 c rest)

/-- Where the markers are, for pieces that start at `pos`. -/
def markerPositions (pos : Nat) : List Piece → List Nat
  | [] => []
  | .marker :: ps => pos :: markerPositions (pos + 1) ps
  | .text _ used :: ps => markerPositions (pos + (used.length + 1)) ps

/-- A round that reads `c :: used` does so whatever follows, short of continuing its token.  The
last round may be in an unterminated literal, and then nothing may follow. -/
def IsRound (c : UInt8) (used : List UInt8) (last : Prop) : Prop :=
  ∀ line X, (byteClass c = .quote → last → X = []) → (∀ b ∈ X.head?, continues c b = false) →
    nextToken line c (used ++ X) = { nextToken line c used with rest := X }

/-- Pieces that are the rounds of a text. -/
def Cut : List Piece → Prop
  | [] => True
  | .marker :: ps => Cut ps
  | .text c used :: ps =>
      IsRound c used (ps = []) ∧ (∀ b ∈ (ps.flatMap Piece.bytes).head?, continues c b = false) ∧
        Cut ps

theorem usedBy_append (c : UInt8) (rest : List UInt8) :
    usedBy c rest ++ (nextToken 0 c rest).rest = rest ∧
      IsRound c (usedBy c rest) ((nextToken 0 c rest).rest = []) := by
  obtain ⟨used, hrest, hframe⟩ := nextToken_frame 0 c rest
  have hused : usedBy c rest = used := by
    have hlen := congrArg List.length hrest
    rw [List.length_append] at hlen
    unfold usedBy
    rw [hlen, Nat.add_sub_cancel]
    conv_lhs => rw [hrest]
    exact List.take_left
  rw [hused]
  refine ⟨hrest.symm, fun line X hlast hX => ?_⟩
  rw [hframe line X hlast hX]
  -- the token and the line are those of the round over `used` alone
  have halone := hframe line [] (fun _ _ => rfl) (by simp)
  rw [List.append_nil] at halone
  rw [halone]

theorem pieces_bytes (bs : List UInt8) : (pieces bs).flatMap Piece.bytes = bs := by
  fun_induction pieces bs with
  | case1 => rfl
  | case2 rest ih => simpa [Piece.bytes] using ih
  | case3 c rest hc ih =>
      rw [List.flatMap_cons, ih]
      exact congrArg (c :: ·) (usedBy_append c rest).1

theorem cut_pieces (bs : List UInt8) : Cut (pieces bs) := by
  fun_induction pieces bs with
  | case1 => trivial
  | case2 rest ih => exact ih
  | case3 c rest hc ih =>
      refine ⟨fun line X hlast hX => ?_, ?_, ih⟩
      · refine (usedBy_append c rest).2 line X (fun hquote hnil => hlast hquote ?_) hX
        rw [hnil, pieces]
      · rw [pieces_bytes]
        exact nextToken_maximal 0 c rest

/-- The tokens of a text that starts on a line, with the one for its end. -/
def tokensFrom (line : Nat) (bs : List UInt8) : List Token :=
  (lex line bs).1 ++ [{ type := .eof, value := none, line := (lex line bs).2 }]

theorem tokenize_eq (input : CStr) : tokenize input = tokensFrom 1 input.val := rfl

theorem tokensFrom_cons (line : Nat) (c : UInt8) (rest : List UInt8) :
    tokensFrom line (c :: rest) =
      (nextToken line c rest).token.toList ++
        tokensFrom (nextToken line c rest).line (nextToken line c rest).rest := by
  rw [tokensFrom, lex, List.append_assoc]
  rfl

/-- The lexer takes one round off the text. -/
theorem IsRound.tokensFrom {c : UInt8} {used : List UInt8} {last : Prop}
    (hround : IsRound c used last) (line : Nat) {X : List UInt8} (hlast : last → X = [])
    (hX : ∀ b ∈ X.head?, continues c b = false) :
    tokensFrom line (c :: used ++ X) =
      (nextToken line c used).token.toList ++ tokensFrom (nextToken line c used).line X := by
  rw [List.cons_append, tokensFrom_cons, hround line X (fun _ => hlast) hX]

/-! ## Runs -/

theorem ends_iff_takeWhile {p : UInt8 → Bool} {X : List UInt8} :
    (∀ b ∈ X.head?, p b = false) ↔ X.takeWhile p = [] := by
  cases X with
  | nil => simp
  | cons b X => cases hb : p b <;> simp [hb]

theorem tokensFrom_word {c : UInt8} {used : List UInt8} (hc : byteClass c = .word)
    (hused : ∀ b ∈ used, isWordByte b = true) (line : Nat) (X : List UInt8) :
    tokensFrom line (c :: (used ++ X)) =
      wordToken (c :: (used ++ X.takeWhile isWordByte)) line ::
        tokensFrom line (X.dropWhile isWordByte) := by
  have htake : (used ++ X).takeWhile isWordByte = used ++ X.takeWhile isWordByte :=
    List.takeWhile_append_of_pos hused
  have hdrop : (used ++ X).dropWhile isWordByte = X.dropWhile isWordByte :=
    List.dropWhile_append_of_pos hused
  rw [tokensFrom_cons, nextToken, hc, ← htake, ← hdrop]
  rfl

theorem tokensFrom_number {c : UInt8} {used : List UInt8} (hc : byteClass c = .digit)
    (hused : ∀ b ∈ used, isNumberByte b = true) (line : Nat) (X : List UInt8) :
    tokensFrom line (c :: (used ++ X)) =
      numberToken (c :: (used ++ X.takeWhile isNumberByte)) line ::
        tokensFrom line (X.dropWhile isNumberByte) := by
  have htake : (used ++ X).takeWhile isNumberByte = used ++ X.takeWhile isNumberByte :=
    List.takeWhile_append_of_pos hused
  have hdrop : (used ++ X).dropWhile isNumberByte = X.dropWhile isNumberByte :=
    List.dropWhile_append_of_pos hused
  rw [tokensFrom_cons, nextToken, hc, ← htake, ← hdrop]
  rfl

/-- The text of a round that is a word, or a number, is all of it one run. -/
theorem IsRound.run {c : UInt8} {used : List UInt8} {last : Prop}
    (hround : IsRound c used last) :
    (byteClass c = .word → ∀ b ∈ used, isWordByte b = true) ∧
      (byteClass c = .digit → ∀ b ∈ used, isNumberByte b = true) := by
  have halone := congrArg Round.rest (hround 0 [] (fun _ _ => rfl) (by simp))
  rw [List.append_nil] at halone
  constructor
  · intro hc
    rw [nextToken, hc] at halone
    exact List.dropWhile_eq_nil_iff.mp halone
  · intro hc
    rw [nextToken, hc] at halone
    exact List.dropWhile_eq_nil_iff.mp halone

/-! ## Pieces and tokens -/

/-- The tokens of the pieces; a marker has none. -/
def pieceTokens (line : Nat) : List Piece → List Token
  | [] => [{ type := .eof, value := none, line := line }]
  | .marker :: ps => pieceTokens line ps
  | .text c used :: ps =>
      (nextToken line c used).token.toList ++ pieceTokens (nextToken line c used).line ps

end Sql
end InventixDB
