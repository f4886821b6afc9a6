import InventixDB.Lib.JsonValues
import InventixDB.Sql.Crashes
import InventixDB.Sql.Pieces

/-!
# Bodies — JSON texts in document statements

The body of a document statement is a literal, or a text in braces.  A literal is stored as it
stands.  What stands in braces is put together from the texts of its tokens, and the text of a
string has no quotes.  Quotes and backslashes are counted: what is stored has as many as the
strings of the object at most, and every text of the object has two more for each string.
-/

namespace InventixDB
namespace Sql

open Storage
open Lib.JsonText
open InventixDB.Sql.Parser

/-! ## Statements with a body -/

inductive BodyStatement
  | docInsert
  | find
  | upsert
  deriving DecidableEq

namespace BodyStatement

def keyword : BodyStatement → LexerTokenType
  | .docInsert => .kwRakho
  | .find => .kwFind
  | .upsert => .kwUpsert

/-- The statement with its body. -/
def node (kind : BodyStatement) (name body : CStr) : ASTNode :=
  match kind with
  | .docInsert => .docInsert name body
  | .find => .docGet name (some body)
  | .upsert => .docUpsert name body

end BodyStatement

/-- A text the lexer reads as one word of this type. -/
def ReadsAs (word : List UInt8) (type : LexerTokenType) : Prop :=
  ∃ c used, word = c :: used ∧ byteClass c = .word ∧ (∀ b ∈ used, isWordByte b = true) ∧
    checkKeyword (CStr.ofBytes word) = type

/-- How a statement has its body. -/
inductive BodyForm
  | braces
  | literal
  deriving DecidableEq

/-- What stands in the query for the text `t`: the text, or a literal whose escapes, read, give it.
FIND takes no literal. -/
def BodyForm.Writes (kind : BodyStatement) (t piece : List UInt8) : BodyForm → Prop
  | .braces => piece = t
  | .literal => kind ≠ .find ∧ ∃ quote ∈ quotes, ∃ typed, Written quote t typed ∧
      piece = quote :: (typed ++ [quote])

/-- The query is the statement with the text `t` as its body. -/
def Carries (kind : BodyStatement) (form : BodyForm) (name : CStr) (t : List UInt8)
    (query : CStr) : Prop :=
  ∃ word blank before piece after, ReadsAs word kind.keyword ∧ blank ≠ [] ∧ Blank blank ∧
    ReadsAs name.val .identifier ∧ Blank before ∧ form.Writes kind t piece ∧ Blank after ∧
    query.val = word ++ (blank ++ (name.val ++ (before ++ (piece ++ (after ++ [59])))))

/-- The body in the statement denotes the value. -/
def BodySurvives (kind : BodyStatement) (name query : CStr) (v : Json) : Prop :=
  ∃ body after, parse (tokenize query) = .ok (kind.node name body) after ∧ Denotes body.val v

/-! ## Quotes and backslashes -/

/-- How many quotes and backslashes a text has. -/
def marks (bs : List UInt8) : Nat :=
  bs.countP fun c => c == 34 || c == 92

@[simp] theorem marks_nil : marks [] = 0 := rfl

theorem marks_append (bs cs : List UInt8) : marks (bs ++ cs) = marks bs + marks cs :=
  List.countP_append

theorem marks_cons (c : UInt8) (bs : List UInt8) : marks (c :: bs) = marks [c] + marks bs :=
  marks_append [c] bs

theorem marks_eq_zero {bs : List UInt8} (hbs : ∀ c ∈ bs, c ≠ 34 ∧ c ≠ 92) : marks bs = 0 := by
  refine List.countP_eq_zero.mpr fun c hc => ?_
  simp [hbs c hc]

theorem marks_singleton_le (c : UInt8) : marks [c] ≤ 1 :=
  List.countP_le_length

/-- A byte that is no ASCII character. -/
theorem ofNat_ne {n : Nat} (hlow : 128 ≤ n) (hhigh : n < 256) :
    UInt8.ofNat n ≠ 34 ∧ UInt8.ofNat n ≠ 92 := by
  have hvalue : (UInt8.ofNat n).toNat = n := by
    rw [UInt8.toNat_ofNat']
    omega
  constructor
  · intro heq
    rw [heq] at hvalue
    have hsmall : (34 : UInt8).toNat = 34 := rfl
    omega
  · intro heq
    rw [heq] at hvalue
    have hsmall : (92 : UInt8).toNat = 92 := rfl
    omega

theorem marks_utf8_le (char : Nat) : marks (utf8 char) ≤ 1 := by
  have htail : ∀ n, UInt8.ofNat (128 + n % 64) ≠ 34 ∧ UInt8.ofNat (128 + n % 64) ≠ 92 :=
    fun n => ofNat_ne (by omega) (by omega)
  unfold utf8
  split
  · exact marks_singleton_le _
  all_goals refine (marks_eq_zero ?_).trans_le (Nat.zero_le 1)
  split
  · simp only [List.forall_mem_cons]
    exact ⟨ofNat_ne (by omega) (by omega), htail _, fun _ h => absurd h List.not_mem_nil⟩
  split
  · simp only [List.forall_mem_cons]
    exact ⟨ofNat_ne (by omega) (by omega), htail _, htail _, fun _ h => absurd h List.not_mem_nil⟩
  · simp only [List.forall_mem_cons]
    exact ⟨ofNat_ne (by omega) (by omega), htail _, htail _, htail _,
      fun _ h => absurd h List.not_mem_nil⟩

/-- A text of a string has a quote or backslash for each one of the string. -/
theorem marks_spells_le {t s : List UInt8} (hs : Spells t s) : marks s ≤ marks t := by
  induction hs with
  | nil => exact Nat.le_refl _
  | @plain c t s _ _ ih =>
      rw [marks_cons c s, marks_cons c t]
      omega
  | @escape c t s _ _ ih =>
      have hone := marks_singleton_le (unescaped c)
      have hback : marks [92] = 1 := rfl
      rw [marks_cons _ s, marks_cons 92, marks_cons c]
      omega
  | @unicode a b c d t s _ _ _ ih =>
      have hone := marks_utf8_le (unitValue a b c d)
      have hback : marks [92] = 1 := rfl
      have hsplit := marks_append [92, 117, a, b, c, d] t
      have hhead := marks_cons 92 [117, a, b, c, d]
      rw [marks_append]
      simp only [List.cons_append, List.nil_append] at hsplit
      omega
  | @surrogates a b c d a' b' c' d' t s _ _ _ _ _ ih =>
      have hone := marks_utf8_le
        (65536 + (unitValue a b c d - 55296) * 1024 + (unitValue a' b' c' d' - 56320))
      have hback : marks [92] = 1 := rfl
      have hsplit := marks_append [92, 117, a, b, c, d, 92, 117, a', b', c', d'] t
      have hhead := marks_cons 92 [117, a, b, c, d, 92, 117, a', b', c', d']
      rw [marks_append]
      simp only [List.cons_append, List.nil_append] at hsplit
      omega

/-- Every text of a value has its quotes besides. -/
theorem measures_marks : Measures (fun t n => n ≤ marks t) fun s => marks s + 2 where
  append := by
    intro t u m n ht hu
    rw [marks_append]
    omega
  off := fun _ => Nat.zero_le _
  string := by
    intro body s hbody
    have hle := marks_spells_le hbody
    have hquote : marks [34] = 1 := rfl
    rw [Lib.JsonText.quoted, marks_cons, marks_append]
    omega

/-! ## What the lexer keeps of them -/

/-- How many the literals of a text hold. -/
def literalMarks : List UInt8 → Nat
  | [] => 0
  | c :: rest =>
      if byteClass c = .quote then
        marks (readString c rest).1 + literalMarks (readString c rest).2
      else literalMarks rest
termination_by bs => bs.length
decreasing_by
  · exact Nat.lt_succ_of_le (readString_length_le c rest)
  · exact Nat.lt_succ_self _

theorem literalMarks_cons_of_ne {c : UInt8} (hc : byteClass c ≠ .quote) (rest : List UInt8) :
    literalMarks (c :: rest) = literalMarks rest := by
  rw [literalMarks, if_neg hc]

/-- Outside of literals nothing counts. -/
theorem literalMarks_append_of_ne {bs : List UInt8} (hbs : ∀ c ∈ bs, byteClass c ≠ .quote)
    (rest : List UInt8) : literalMarks (bs ++ rest) = literalMarks rest := by
  induction bs with
  | nil => rfl
  | cons c bs ih =>
      rw [List.cons_append, literalMarks_cons_of_ne (hbs c List.mem_cons_self),
        ih fun b hb => hbs b (List.mem_cons_of_mem _ hb)]

theorem mem_quotes_of_class {c : UInt8} (hc : byteClass c = .quote) : c = 34 ∨ c = 39 := by
  unfold byteClass at hc
  split at hc
  · cases hc
  split at hc
  · cases hc
  split at hc
  · next hquote => simpa using hquote
  split at hc
  · cases hc
  split at hc <;> cases hc

/-- A class of bytes without quotes and backslashes. -/
theorem not_quote_of {p : UInt8 → Bool} (hp : p 34 = false ∧ p 39 = false ∧ p 92 = false)
    {c : UInt8} (hc : p c = true) : byteClass c ≠ .quote ∧ c ≠ 34 ∧ c ≠ 92 := by
  have hne : c ≠ 34 ∧ c ≠ 39 ∧ c ≠ 92 := by
    refine ⟨?_, ?_, ?_⟩ <;>
    · rintro rfl
      simp [hp] at hc
  exact ⟨fun hclass => (mem_quotes_of_class hclass).elim hne.1 hne.2.1, hne.1, hne.2.2⟩

theorem not_quote_of_wordByte {c : UInt8} (hc : isWordByte c = true) :
    byteClass c ≠ .quote ∧ c ≠ 34 ∧ c ≠ 92 :=
  not_quote_of (by decide) hc

theorem not_quote_of_numberByte {c : UInt8} (hc : isNumberByte c = true) :
    byteClass c ≠ .quote ∧ c ≠ 34 ∧ c ≠ 92 :=
  not_quote_of (by decide) hc

/-- The quotes and backslashes in the text of a token. -/
def Token.marks (t : Token) : Nat :=
  (t.value.map fun v => Sql.marks v.val).getD 0

def tokensMarks (ts : List Token) : Nat :=
  (ts.map Token.marks).sum

theorem tokensMarks_append (ts us : List Token) :
    tokensMarks (ts ++ us) = tokensMarks ts + tokensMarks us := by
  rw [tokensMarks, List.map_append, List.sum_append]
  rfl

theorem tokensMarks_cons (t : Token) (ts : List Token) :
    tokensMarks (t :: ts) = t.marks + tokensMarks ts := rfl

/-- A text without NUL keeps its marks; any other loses some. -/
theorem marks_ofBytes_le (bs : List UInt8) : marks (CStr.ofBytes bs).val ≤ marks bs :=
  (List.takeWhile_sublist _).countP_le

theorem marks_text_eq_zero {bs : List UInt8} (hbs : ∀ c ∈ bs, c ≠ 34 ∧ c ≠ 92) :
    marks (CStr.ofBytes bs).val = 0 :=
  Nat.le_zero.mp ((marks_ofBytes_le bs).trans (marks_eq_zero hbs).le)

/-- One round of the lexer. -/
theorem marks_nextToken_le (line : Nat) (c : UInt8) (rest : List UInt8) :
    tokensMarks (nextToken line c rest).token.toList + literalMarks (nextToken line c rest).rest ≤
      literalMarks (c :: rest) := by
  cases hclass : byteClass c with
  | space =>
      rw [nextToken, hclass, literalMarks_cons_of_ne (by rw [hclass]; decide)]
      exact (Nat.zero_add _).le
  | unexpected =>
      rw [nextToken, hclass, literalMarks_cons_of_ne (by rw [hclass]; decide)]
      exact (Nat.zero_add _).le
  | symbol type =>
      have hne : c ≠ 34 ∧ c ≠ 92 := by
        constructor
        · rintro rfl
          have hquote : byteClass 34 = .quote := by decide
          rw [hquote] at hclass
          cases hclass
        · rintro rfl
          have hother : byteClass 92 = .unexpected := by decide
          rw [hother] at hclass
          cases hclass
      have htext := marks_text_eq_zero (List.forall_mem_singleton.mpr hne)
      rw [nextToken, hclass, literalMarks_cons_of_ne (by rw [hclass]; intro h; cases h)]
      show marks (CStr.ofBytes [c]).val + 0 + literalMarks rest ≤ literalMarks rest
      omega
  | quote =>
      have htext := marks_ofBytes_le (readString c rest).1
      rw [nextToken, hclass, literalMarks, if_pos hclass]
      show marks (CStr.ofBytes (readString c rest).1).val + 0 +
        literalMarks (readString c rest).2 ≤
          marks (readString c rest).1 + literalMarks (readString c rest).2
      omega
  | digit =>
      have hall : ∀ b ∈ c :: rest.takeWhile isNumberByte, isNumberByte b = true := by
        refine List.forall_mem_cons.mpr ⟨?_, fun b hb => List.mem_takeWhile_imp hb⟩
        rw [isNumberByte, isDigit_of_digit hclass, Bool.true_or]
      have htext := marks_text_eq_zero fun b hb => (not_quote_of_numberByte (hall b hb)).2
      have hskip := literalMarks_append_of_ne
        (fun b hb => (not_quote_of_numberByte (hall b hb)).1) (rest.dropWhile isNumberByte)
      rw [List.cons_append, List.takeWhile_append_dropWhile] at hskip
      rw [nextToken, hclass, hskip]
      show marks (CStr.ofBytes (c :: rest.takeWhile isNumberByte)).val + 0 +
        literalMarks (rest.dropWhile isNumberByte) ≤ literalMarks (rest.dropWhile isNumberByte)
      omega
  | word =>
      have hall : ∀ b ∈ c :: rest.takeWhile isWordByte, isWordByte b = true :=
        List.forall_mem_cons.mpr
          ⟨isWordByte_of_word hclass, fun b hb => List.mem_takeWhile_imp hb⟩
      have htext := marks_text_eq_zero fun b hb => (not_quote_of_wordByte (hall b hb)).2
      have hskip := literalMarks_append_of_ne
        (fun b hb => (not_quote_of_wordByte (hall b hb)).1) (rest.dropWhile isWordByte)
      rw [List.cons_append, List.takeWhile_append_dropWhile] at hskip
      have htoken : (wordToken (c :: rest.takeWhile isWordByte) line).marks = 0 := by
        unfold wordToken Token.marks
        dsimp only
        split
        · exact htext
        · rfl
      rw [nextToken, hclass, hskip]
      show (wordToken (c :: rest.takeWhile isWordByte) line).marks + 0 +
        literalMarks (rest.dropWhile isWordByte) ≤ literalMarks (rest.dropWhile isWordByte)
      omega

/-- The tokens have no more marks than the literals. -/
theorem tokensMarks_lex_le (line : Nat) (bs : List UInt8) :
    tokensMarks (lex line bs).1 ≤ literalMarks bs := by
  fun_induction lex line bs with
  | case1 => exact Nat.zero_le _
  | case2 line c rest round r ih =>
      have hround := marks_nextToken_le line c rest
      rw [tokensMarks_append]
      exact (Nat.add_le_add_left ih _).trans hround

/-- The lexer reads a string of JSON to its end, and keeps no more marks than it spells. -/
theorem written_of_spells {body s : List UInt8} (hs : Spells body s) :
    ∃ bytes, Written 34 bytes body ∧ marks bytes ≤ marks s := by
  have hhexPlain : ∀ x, isHex x = true → x ≠ 34 ∧ x ≠ 92 := by
    intro x hx
    constructor <;>
    · rintro rfl
      exact absurd hx (by decide)
  have hunit : ∀ {a b c d : UInt8} {bytes t : List UInt8},
      (∀ x ∈ [a, b, c, d], isHex x = true) → Written 34 bytes t →
      ∃ bytes', Written 34 bytes' (92 :: 117 :: a :: b :: c :: d :: t) ∧
        marks bytes' = marks bytes := by
    intro a b c d bytes t hhex hw
    simp only [List.forall_mem_cons] at hhex
    obtain ⟨ha, hb, hc, hd, -⟩ := hhex
    obtain ⟨ha, ha'⟩ := hhexPlain a ha
    obtain ⟨hb, hb'⟩ := hhexPlain b hb
    obtain ⟨hc, hc'⟩ := hhexPlain c hc
    obtain ⟨hd, hd'⟩ := hhexPlain d hd
    refine ⟨unescape 117 :: a :: b :: c :: d :: bytes, .escaped (by decide)
      (.plain ha ha' (.plain hb hb' (.plain hc hc' (.plain hd hd' hw)))), ?_⟩
    have hnone : marks [unescape 117, a, b, c, d] = 0 := by
      refine marks_eq_zero ?_
      simp only [List.forall_mem_cons]
      exact ⟨⟨by decide, by decide⟩, ⟨ha, ha'⟩, ⟨hb, hb'⟩, ⟨hc, hc'⟩, ⟨hd, hd'⟩,
        fun _ h => absurd h List.not_mem_nil⟩
    have hsplit := marks_append [unescape 117, a, b, c, d] bytes
    rw [hnone, Nat.zero_add] at hsplit
    exact hsplit
  induction hs with
  | nil => exact ⟨[], .nil, Nat.le_refl _⟩
  | @plain c t s hc _ ih =>
      obtain ⟨bytes, hw, hle⟩ := ih
      simp only [isPlain, Bool.and_eq_true, bne_iff_ne] at hc
      refine ⟨c :: bytes, .plain hc.1.2 hc.2 hw, ?_⟩
      rw [marks_cons c bytes, marks_cons c s]
      omega
  | @escape c t s hc _ ih =>
      obtain ⟨bytes, hw, hle⟩ := ih
      simp only [isEscape, Bool.or_eq_true, beq_iff_eq] at hc
      have hchar : c ≠ 0 ∧ marks [unescape c] ≤ marks [unescaped c] := by
        rcases hc with ((((((rfl | rfl) | rfl) | rfl) | rfl) | rfl) | rfl) | rfl <;> decide
      refine ⟨unescape c :: bytes, .escaped hchar.1 hw, ?_⟩
      rw [marks_cons _ bytes, marks_cons _ s]
      omega
  | unicode hhex _ _ ih =>
      obtain ⟨bytes, hw, hle⟩ := ih
      obtain ⟨bytes', hw', heq⟩ := hunit hhex hw
      refine ⟨bytes', hw', ?_⟩
      rw [marks_append]
      omega
  | surrogates hhex hhex' _ _ _ ih =>
      obtain ⟨bytes, hw, hle⟩ := ih
      obtain ⟨bytes', hw', heq⟩ := hunit hhex' hw
      obtain ⟨bytes'', hw'', heq'⟩ := hunit hhex hw'
      refine ⟨bytes'', hw'', ?_⟩
      rw [marks_append]
      omega

/-- The literals of a JSON text are its strings, and keep no more marks than these have. -/
theorem measures_literalMarks :
    Measures (fun t n => ∀ rest, literalMarks (t ++ rest) ≤ n + literalMarks rest) marks where
  append := by
    intro t u m n ht hu rest
    rw [List.append_assoc]
    have hfirst := ht (u ++ rest)
    have hsecond := hu rest
    omega
  off := by
    intro t ht rest
    rw [literalMarks_append_of_ne _ rest, Nat.zero_add]
    intro c hc hclass
    rcases mem_quotes_of_class hclass with rfl | rfl
    · exact absurd (ht _ hc) (by decide)
    · exact absurd (ht _ hc) (by decide)
  string := by
    intro body s hbody rest
    obtain ⟨bytes, hw, hle⟩ := written_of_spells hbody
    have hread := readString_written (by decide) hw rest
    have htext : Lib.JsonText.quoted body ++ rest = 34 :: (body ++ 34 :: rest) := by
      rw [Lib.JsonText.quoted, List.cons_append, List.append_assoc, List.singleton_append]
    rw [htext, literalMarks, if_pos (by decide), hread]
    exact Nat.add_le_add_right hle _

/-! ## What the parser keeps of them -/

variable {α β : Type} {ts : TokenStream}

/-- What the parser returns weighs no more than `m` and the tokens it consumes. -/
def Spends (ts : TokenStream) (p : Parser α) (m : Nat) (w : α → Nat) : Prop :=
  ∀ ⦃ctx a after⦄, Within ts ctx → p ctx = .ok a after →
    Within ts after ∧ w a + tokensMarks after.rest ≤ m + tokensMarks ctx.rest

theorem Spends.bind {p : Parser α} {f : α → Parser β} {m : Nat} {w : α → Nat} {w' : β → Nat}
    (hp : Spends ts p m w) (hf : ∀ a, Spends ts (f a) (w a) w') : Spends ts (p >>= f) m w' := by
  intro ctx b after hctx hok
  obtain ⟨a, ctx₁, ha, hb⟩ := ok_of_bind hok
  obtain ⟨hctx₁, hle⟩ := hp hctx ha
  obtain ⟨hafter, hle'⟩ := hf a hctx₁ hb
  exact ⟨hafter, hle'.trans hle⟩

theorem Spends.mono {p : Parser α} {m m' : Nat} {w w' : α → Nat} (hp : Spends ts p m w)
    (hm : m ≤ m') (hw : ∀ a, w' a ≤ w a) : Spends ts p m' w' := by
  intro ctx a after hctx hok
  obtain ⟨hafter, hle⟩ := hp hctx hok
  have hwa := hw a
  exact ⟨hafter, by omega⟩

/-- What is there before is there afterwards. -/
theorem Spends.frame {p : Parser α} {m : Nat} {w : α → Nat} (hp : Spends ts p m w) (k : Nat) :
    Spends ts p (m + k) fun a => w a + k := by
  intro ctx a after hctx hok
  obtain ⟨hafter, hle⟩ := hp hctx hok
  refine ⟨hafter, ?_⟩
  dsimp only
  omega

theorem spends_pure (a : α) (w : α → Nat) : Spends ts (pure a) (w a) w := by
  intro ctx b after hctx hok
  cases hok
  exact ⟨hctx, Nat.le_refl _⟩

theorem spends_consume {type : LexerTokenType} (htype : type ≠ .eof) :
    Spends ts (consume type) 0 Token.marks := by
  intro ctx t after hctx hok
  cases hrest : ctx.rest with
  | nil =>
      obtain ⟨t', ht', heof⟩ := currentToken_of_nil hctx hrest
      unfold consume at hok
      rw [bind_of_ok ht', if_neg (by rw [heof]; exact htype.symm)] at hok
      cases hok
  | cons t' rest =>
      rw [consume_eq type hrest] at hok
      split at hok
      · cases hok
        refine ⟨hctx.next hrest, ?_⟩
        rw [rest_next hrest, tokensMarks_cons, Nat.zero_add]
      · cases hok

theorem spends_text (t : Token) : Spends ts (text t) t.marks fun v => marks v.val := by
  intro ctx v after hctx hok
  obtain ⟨hv, rfl⟩ := text_ok hok
  refine ⟨hctx, ?_⟩
  rw [Token.marks, hv]
  exact Nat.le_refl _

theorem spends_consumeText {type : LexerTokenType} (htype : type ≠ .eof) :
    Spends ts (consumeText type) 0 fun v => marks v.val :=
  (spends_consume htype).bind spends_text

theorem spends_strcat (size : Nat) (buffer v : CStr) :
    Spends ts (strcat size buffer v) (marks buffer.val + marks v.val) fun r => marks r.val := by
  intro ctx r after hctx hok
  obtain ⟨rfl, _, rfl⟩ := strcat_ok hok
  refine ⟨hctx, ?_⟩
  dsimp only
  rw [CStr.val_append, marks_append]

theorem spends_currentType : Spends ts currentType 0 fun _ => 0 := by
  intro ctx type after hctx hok
  obtain ⟨t, ctx₁, ht, hret⟩ := ok_of_bind hok
  obtain ⟨_, rfl⟩ := currentToken_ok ht
  cases hret
  exact ⟨hctx, Nat.le_refl _⟩

theorem spends_loop {body : α → Parser (α × Bool)} {w : α → Nat}
    (hbody : ∀ a, Spends ts (body a) (w a) fun r => w r.1) (a : α) :
    Spends ts (loop body a) (w a) w := by
  have hiterate : ∀ fuel a, Spends ts (iterate body fuel a) (w a) w := by
    intro fuel
    induction fuel with
    | zero =>
        intro a ctx b after _ hok
        cases hok
    | succ fuel ih =>
        intro a
        refine (hbody a).bind fun r => ?_
        split
        · exact ih r.1
        · exact spends_pure r.1 w
  intro ctx b after hctx hok
  exact hiterate ctx.rounds a hctx hok

theorem marks_blank_append (buffer v : CStr) :
    marks (buffer ++ v ++ CStr.lit " ").val = marks buffer.val + marks v.val := by
  rw [CStr.val_append, CStr.val_append, marks_append, marks_append]
  rfl

/-- A round that takes over the text of a token. -/
theorem within_next_of_text {ctx : ParserContext} {t : Token} {rest : List Token} {v : CStr}
    (hctx : Within ts ctx) (hrest : ctx.rest = t :: rest) (hv : t.value = some v) (buffer : CStr) :
    Within ts ctx.next ∧ marks (buffer ++ v ++ CStr.lit " ").val + tokensMarks ctx.next.rest ≤
      marks buffer.val + tokensMarks (t :: rest) := by
  have ht : t.marks = marks v.val := by
    rw [Token.marks, hv]
    rfl
  refine ⟨hctx.next hrest, ?_⟩
  rw [rest_next hrest, tokensMarks_cons, marks_blank_append, ht]
  omega

theorem spends_flatBracesRound (size : Nat) (buffer : CStr) :
    Spends ts (flatBracesRound size buffer) (marks buffer.val) fun r => marks r.1.val := by
  intro ctx r after hctx hok
  have hstop : ∀ t, currentToken ctx = .ok t ctx → t.type = .rbrace ∨ t.type = .eof →
      Within ts after ∧
        marks r.1.val + tokensMarks after.rest ≤ marks buffer.val + tokensMarks ctx.rest := by
    intro t ht htype
    unfold flatBracesRound at hok
    rw [bind_of_ok ht, if_pos htype] at hok
    cases hok
    exact ⟨hctx, Nat.le_refl _⟩
  cases hrest : ctx.rest with
  | nil =>
      obtain ⟨t, ht, heof⟩ := currentToken_of_nil hctx hrest
      exact hrest ▸ hstop t ht (.inr heof)
  | cons t rest =>
      by_cases hopen : t.type ≠ .rbrace ∧ t.type ≠ .eof
      · rw [flatBracesRound_of_rest hrest hopen] at hok
        split at hok
        · next v hv =>
            split at hok
            · cases hok
              exact within_next_of_text hctx hrest hv buffer
            · cases hok
        · cases hok
      · rw [← hrest]
        exact hstop t (currentToken_of_rest hrest) (by rwa [not_and_or, not_not, not_not] at hopen)

theorem spends_bracesRound (size : Nat) (s : CStr × Nat) :
    Spends ts (bracesRound size s) (marks s.1.val) fun r => marks r.1.1.val := by
  intro ctx r after hctx hok
  obtain ⟨buffer, depth⟩ := s
  have hstop : ∀ t, currentToken ctx = .ok t ctx → depth = 0 ∨ t.type = .eof →
      Within ts after ∧
        marks r.1.1.val + tokensMarks after.rest ≤ marks buffer.val + tokensMarks ctx.rest := by
    intro t ht htype
    unfold bracesRound at hok
    rw [bind_of_ok ht, if_pos htype] at hok
    cases hok
    exact ⟨hctx, Nat.le_refl _⟩
  cases hrest : ctx.rest with
  | nil =>
      obtain ⟨t, ht, heof⟩ := currentToken_of_nil hctx hrest
      exact hrest ▸ hstop t ht (.inr heof)
  | cons t rest =>
      by_cases hmore : depth = 0 ∨ t.type = .eof
      · rw [← hrest]
        exact hstop t (currentToken_of_rest hrest) hmore
      · by_cases hclosed : braceDepth depth t.type = 0
        · unfold bracesRound at hok
          rw [bind_of_ok (currentToken_of_rest hrest), if_neg hmore, if_pos hclosed,
            bind_of_ok (advance_of_rest hrest)] at hok
          cases hok
          refine ⟨hctx.next hrest, ?_⟩
          dsimp only
          rw [rest_next hrest, tokensMarks_cons]
          omega
        · obtain ⟨hdepth, heof⟩ := not_or.mp hmore
          rw [bracesRound_of_rest hrest hdepth heof hclosed] at hok
          split at hok
          · next v hv =>
              split at hok
              · cases hok
                exact within_next_of_text hctx hrest hv buffer
              · cases hok
          · cases hok

theorem spends_flatBraces (size : Nat) :
    Spends ts (parseFlatBraces size) 0 fun v => marks v.val := by
  rw [parseFlatBraces_eq]
  refine ((spends_consume (by decide)).mono (Nat.le_refl _) fun _ => Nat.zero_le _).bind fun _ => ?_
  refine (spends_loop (w := fun v : CStr => marks v.val) (spends_flatBracesRound size) _).bind
    fun buffer => ?_
  have hclose : Spends ts (consume .rbrace) (0 + marks buffer.val) fun _ => 0 + marks buffer.val :=
    ((spends_consume (by decide)).mono (Nat.le_refl _) fun _ => Nat.zero_le _).frame _
  rw [Nat.zero_add] at hclose
  exact hclose.bind fun _ => spends_strcat size buffer _

theorem spends_braces (size : Nat) : Spends ts (parseBraces size) 0 fun v => marks v.val := by
  rw [parseBraces_eq]
  refine ((spends_consume (by decide)).mono (Nat.le_refl _) fun _ => Nat.zero_le _).bind fun _ => ?_
  refine (spends_loop (w := fun s : CStr × Nat => marks s.1.val) (spends_bracesRound size) _).bind
    fun s => ?_
  exact spends_strcat size s.1 _

/-- The marks of the body of a document statement. -/
def bodyMarks : ASTNode → Nat
  | .docInsert _ body => marks body.val
  | .docGet _ (some body) => marks body.val
  | .docUpsert _ body => marks body.val
  | _ => 0

theorem spends_tail {k : Nat} (node : ASTNode) (hnode : bodyMarks node ≤ k) :
    Spends ts (do
      let _ ← consume .semicolon
      return node) k bodyMarks := by
  have hend : Spends ts (consume .semicolon) (0 + k) fun _ => 0 + k :=
    ((spends_consume (by decide)).mono (Nat.le_refl _) fun _ => Nat.zero_le _).frame _
  rw [Nat.zero_add] at hend
  exact hend.bind fun _ => (spends_pure node bodyMarks).mono hnode fun _ => Nat.le_refl _

theorem spends_body {braces : Parser CStr}
    (hbraces : Spends ts braces 0 fun v => marks v.val) :
    Spends ts (parseBody braces) 0 fun v => marks v.val := by
  unfold parseBody
  refine spends_currentType.bind fun type => ?_
  split
  · exact hbraces
  · exact spends_consumeText (by decide)

theorem spends_findFilter :
    Spends ts parseFindFilter 0 fun filter => (filter.map fun v => marks v.val).getD 0 := by
  unfold parseFindFilter
  refine spends_currentType.bind fun type => ?_
  split
  · exact (spends_braces 1024).bind fun v =>
      spends_pure (some v) fun filter => (filter.map fun v => marks v.val).getD 0
  · exact spends_pure none _

/-- A keyword and the name of the collection. -/
theorem spends_head {type : LexerTokenType} (htype : type ≠ .eof) {f : CStr → Parser ASTNode}
    (hf : ∀ name, Spends ts (f name) 0 bodyMarks) :
    Spends ts (do
      let _ ← consume type
      f (← consumeText .identifier)) 0 bodyMarks := by
  refine ((spends_consume htype).mono (Nat.le_refl _) fun _ => Nat.zero_le _).bind fun _ => ?_
  exact ((spends_consumeText (by decide)).mono (Nat.le_refl _) fun _ => Nat.zero_le _).bind hf

/-- The parser of the statement. -/
def BodyStatement.parser : BodyStatement → Parser ASTNode
  | .docInsert => parseDocInsert
  | .find => parseFind
  | .upsert => parseUpsert

theorem spends_statement (kind : BodyStatement) : Spends ts kind.parser 0 bodyMarks := by
  cases kind with
  | docInsert =>
      show Spends ts parseDocInsert 0 bodyMarks
      rw [parseDocInsert_eq]
      refine spends_head (by decide) fun name => ?_
      exact (spends_body (spends_flatBraces 1024)).bind fun body =>
        spends_tail (.docInsert name body) (Nat.le_refl _)
  | find =>
      show Spends ts parseFind 0 bodyMarks
      rw [parseFind_eq]
      refine spends_head (by decide) fun name => ?_
      refine spends_findFilter.bind fun filter => spends_tail (.docGet name filter) ?_
      cases filter <;> exact Nat.le_refl _
  | upsert =>
      show Spends ts parseUpsert 0 bodyMarks
      rw [parseUpsert_eq]
      refine spends_head (by decide) fun name => ?_
      exact (spends_body (spends_braces 2048)).bind fun body =>
        spends_tail (.docUpsert name body) (Nat.le_refl _)

/-! ## The statement as a whole -/

theorem ReadsAs.class {word : List UInt8} {type : LexerTokenType} (hword : ReadsAs word type) :
    ∀ b ∈ word, isWordByte b = true := by
  obtain ⟨c, used, rfl, hc, hused, _⟩ := hword
  exact List.forall_mem_cons.mpr ⟨isWordByte_of_word hc, hused⟩

theorem ReadsAs.tokensFrom {word : List UInt8} {type : LexerTokenType} (hword : ReadsAs word type)
    (line : Nat) {rest : List UInt8} (hrest : ∀ b ∈ rest.head?, isWordByte b = false) :
    tokensFrom line (word ++ rest) =
      { type := type
        value := if type = .identifier then some (CStr.ofBytes word) else none
        line := line } :: tokensFrom line rest := by
  obtain ⟨c, used, rfl, hc, hused, htype⟩ := hword
  have htake := ends_iff_takeWhile.mp hrest
  have hdrop : rest.dropWhile isWordByte = rest := by
    have hsplit := rest.takeWhile_append_dropWhile (p := isWordByte)
    rwa [htake] at hsplit
  rw [List.cons_append, tokensFrom_word hc hused, htake, hdrop, List.append_nil, wordToken, htype]

theorem class_of_isBlank {c : UInt8} (hc : isBlank c = true) :
    byteClass c = .space ∧ isWordByte c = false := by
  simp only [isBlank, Bool.or_eq_true, beq_iff_eq] at hc
  rcases hc with ((rfl | rfl) | rfl) | rfl <;> decide

theorem tokensFrom_blank {blank : List UInt8} (hblank : Blank blank) (line : Nat)
    (rest : List UInt8) :
    ∃ line', tokensFrom line (blank ++ rest) = tokensFrom line' rest := by
  induction blank generalizing line with
  | nil => exact ⟨line, rfl⟩
  | cons c blank ih =>
      have hc := (class_of_isBlank (hblank c List.mem_cons_self)).1
      obtain ⟨line', hline⟩ := ih (fun b hb => hblank b (List.mem_cons_of_mem _ hb))
        (nextToken line c (blank ++ rest)).line
      refine ⟨line', ?_⟩
      rw [← hline, List.cons_append, tokensFrom_cons]
      have htoken : (nextToken line c (blank ++ rest)).token = none := by rw [nextToken, hc]
      have hnext : (nextToken line c (blank ++ rest)).rest = blank ++ rest := by
        rw [nextToken, hc]
      rw [htoken, hnext]
      rfl

theorem head_of_blank {blank rest : List UInt8} (hblank : Blank blank)
    (hrest : ∀ b ∈ rest.head?, isWordByte b = false) :
    ∀ b ∈ (blank ++ rest).head?, isWordByte b = false := by
  cases blank with
  | nil => exact hrest
  | cons c blank =>
      intro b hb
      cases Option.some.inj hb
      exact (class_of_isBlank (hblank c List.mem_cons_self)).2

/-- An object starts with its brace and ends with its brace. -/
theorem denotes_object {t : List UInt8} {fields : List (List UInt8 × Json)}
    (ht : Denotes t (.object fields)) :
    ∃ body, t = 123 :: (body ++ [125]) ∧ (fields = [] → Blank body) := by
  cases ht with
  | emptyObject hw => exact ⟨_, rfl, fun _ => hw⟩
  | object hne _ _ _ hfields =>
      refine ⟨_, rfl, fun hnone => absurd ?_ hne⟩
      rw [hnone, List.perm_nil, List.map_eq_nil_iff] at hfields
      exact hfields

/-- The first byte of the body ends the name of the collection. -/
theorem BodyForm.Writes.head {kind : BodyStatement} {form : BodyForm} {t piece : List UInt8}
    {fields : List (List UInt8 × Json)} (hpiece : form.Writes kind t piece)
    (ht : form = .braces → Denotes t (.object fields)) :
    ∃ c rest, piece = c :: rest ∧ isWordByte c = false := by
  cases form with
  | braces =>
      obtain ⟨body, rfl, _⟩ := denotes_object (ht rfl)
      exact ⟨123, _, hpiece, by decide⟩
  | literal =>
      obtain ⟨_, quote, hquote, typed, _, rfl⟩ := hpiece
      refine ⟨quote, _, rfl, ?_⟩
      rcases mem_quotes.mp hquote with rfl | rfl <;> decide

/-- The tokens of the statement: its keyword, the name and those of the body. -/
theorem Carries.tokens {kind : BodyStatement} {form : BodyForm} {name query : CStr}
    {t : List UInt8} {fields : List (List UInt8 × Json)}
    (hquery : Carries kind form name t query)
    (ht : form = .braces → Denotes t (.object fields)) :
    ∃ line line' line'' piece after, form.Writes kind t piece ∧ 0 ∉ piece ∧ Blank after ∧
      tokenize query =
        { type := kind.keyword, value := none, line := line } ::
          { type := .identifier, value := some name, line := line' } ::
            tokensFrom line'' (piece ++ (after ++ [59])) := by
  obtain ⟨word, blank, before, piece, after, hword, hne, hblank, hname, hbefore, hpiece, hafter,
    hquery⟩ := hquery
  have hzero : 0 ∉ piece := by
    intro hmem
    refine query.property ?_
    rw [hquery]
    simp [hmem]
  obtain ⟨first, more, hfirst, hopen⟩ := hpiece.head ht
  have hhead : ∀ b ∈ (piece ++ (after ++ [59])).head?, isWordByte b = false := by
    intro b hb
    rw [hfirst] at hb
    cases Option.some.inj hb
    exact hopen
  obtain ⟨c, blank', rfl⟩ := List.exists_cons_of_ne_nil hne
  have hgap : ∀ rest : List UInt8, ∀ b ∈ (c :: blank' ++ rest).head?, isWordByte b = false := by
    intro rest b hb
    cases Option.some.inj hb
    exact (class_of_isBlank (hblank c List.mem_cons_self)).2
  obtain ⟨line', hline'⟩ := tokensFrom_blank hblank 1
    (name.val ++ (before ++ (piece ++ (after ++ [59]))))
  obtain ⟨line'', hline''⟩ := tokensFrom_blank hbefore line' (piece ++ (after ++ [59]))
  refine ⟨1, line', line'', piece, after, hpiece, hzero, hafter, ?_⟩
  have hkeyword : (if kind.keyword = .identifier then some (CStr.ofBytes word) else none) = none :=
    by cases kind <;> rfl
  rw [tokenize_eq, hquery, hword.tokensFrom 1 (hgap _), hkeyword, hline',
    hname.tokensFrom line' (head_of_blank hbefore hhead), if_pos rfl, CStr.ofBytes_val, hline'']

theorem parse_of_keyword {kind : BodyStatement} {line : Nat} {rest : List Token} :
    parse ({ type := kind.keyword, value := none, line := line } :: rest) =
      kind.parser
        { tokens := { type := kind.keyword, value := none, line := line } :: rest
          current := 0
          rounds := rest.length + 2 } := by
  cases kind <;> rfl

/-- The tokens of an object without members. -/
theorem tokensFrom_empty {body after : List UInt8} (hbody : Blank body) (hafter : Blank after)
    (line : Nat) :
    ∃ line' line'',
      tokensFrom line (123 :: (body ++ [125]) ++ (after ++ [59])) =
        [{ type := .lbrace, value := some (CStr.ofBytes [123]), line := line },
          { type := .rbrace, value := some (CStr.ofBytes [125]), line := line' },
          { type := .semicolon, value := some (CStr.ofBytes [59]), line := line'' },
          { type := .eof, value := none, line := line'' }] := by
  obtain ⟨line', hline'⟩ := tokensFrom_blank hbody line (125 :: (after ++ [59]))
  obtain ⟨line'', hline''⟩ := tokensFrom_blank hafter line' [59]
  refine ⟨line', line'', ?_⟩
  have hopen : byteClass 123 = .symbol .lbrace := by decide
  have hclose : byteClass 125 = .symbol .rbrace := by decide
  have hend : byteClass 59 = .symbol .semicolon := by decide
  have hsplit : 123 :: (body ++ [125]) ++ (after ++ [59]) =
      123 :: (body ++ 125 :: (after ++ [59])) := by simp
  rw [hsplit, tokensFrom_cons, nextToken, hopen]
  dsimp only
  rw [hline', tokensFrom_cons, nextToken, hclose]
  dsimp only
  rw [hline'', tokensFrom_cons, nextToken, hend]
  simp [tokensFrom, lex]

/-- The tokens of a literal. -/
theorem tokensFrom_literal {quote : UInt8} {t typed after : List UInt8} (hquote : quote ∈ quotes)
    (hw : Written quote t typed) (hafter : Blank after) (line : Nat) :
    ∃ line',
      tokensFrom line (quote :: (typed ++ [quote]) ++ (after ++ [59])) =
        [{ type := .string, value := some (CStr.ofBytes t), line := line },
          { type := .semicolon, value := some (CStr.ofBytes [59]), line := line' },
          { type := .eof, value := none, line := line' }] := by
  obtain ⟨line', hline'⟩ := tokensFrom_blank hafter line [59]
  have hend : byteClass 59 = .symbol .semicolon := by decide
  have hsplit : quote :: (typed ++ [quote]) ++ (after ++ [59]) =
      quote :: (typed ++ quote :: (after ++ [59])) := by simp
  refine ⟨line', ?_⟩
  rw [hsplit, tokensFrom_cons, nextToken_written hquote hw]
  dsimp only
  rw [hline', tokensFrom_cons, nextToken, hend]
  simp [tokensFrom, lex]

theorem parser_of_literal {kind : BodyStatement} (hkind : kind ≠ .find) (name text : CStr)
    (line₁ line₂ line₃ line₄ : Nat) :
    ∃ after,
      parse [{ type := kind.keyword, value := none, line := line₁ },
          { type := .identifier, value := some name, line := line₂ },
          { type := .string, value := some text, line := line₃ },
          { type := .semicolon, value := some (CStr.ofBytes [59]), line := line₄ },
          { type := .eof, value := none, line := line₄ }] =
        .ok (kind.node name text) after := by
  cases kind with
  | docInsert => exact ⟨_, rfl⟩
  | find => exact absurd rfl hkind
  | upsert => exact ⟨_, rfl⟩

theorem parser_of_empty (kind : BodyStatement) (name : CStr) (line₁ line₂ line₃ line₄ line₅ : Nat) :
    ∃ after,
      parse [{ type := kind.keyword, value := none, line := line₁ },
          { type := .identifier, value := some name, line := line₂ },
          { type := .lbrace, value := some (CStr.ofBytes [123]), line := line₃ },
          { type := .rbrace, value := some (CStr.ofBytes [125]), line := line₄ },
          { type := .semicolon, value := some (CStr.ofBytes [59]), line := line₅ },
          { type := .eof, value := none, line := line₅ }] =
        .ok (kind.node name (CStr.lit "\x7b" ++ CStr.lit "\x7d")) after := by
  cases kind <;> exact ⟨_, rfl⟩

/-- What a document statement stores has fewer quotes than any text of an object with members. -/
theorem marks_of_parse {kind : BodyStatement} {name query : CStr} {t : List UInt8}
    {fields : List (List UInt8 × Json)} (hquery : Carries kind .braces name t query)
    (ht : Denotes t (.object fields)) {body : CStr} {after : ParserContext}
    (hparse : parse (tokenize query) = .ok (kind.node name body) after) :
    marks body.val ≤ (Json.object fields).total marks := by
  obtain ⟨line, line', line'', _, _, -, -, -, htokens⟩ := hquery.tokens fun _ => ht
  have hbody : bodyMarks (kind.node name body) = marks body.val := by cases kind <;> rfl
  have hspends : Spends (tokenStream query) kind.parser 0 bodyMarks := spends_statement kind
  have hspent : marks body.val ≤ tokensMarks (tokenize query) := by
    have hctx := standing_tokenStream query _ (Nat.lt_succ_self (tokenize query).length)
    rw [htokens] at hparse hctx ⊢
    rw [parse_of_keyword] at hparse
    obtain ⟨_, hle⟩ := hspends hctx.toWithin hparse
    rw [hbody, Nat.zero_add] at hle
    exact (Nat.le_add_right _ _).trans hle
  have hliterals : tokensMarks (tokenize query) ≤ literalMarks query.val := by
    rw [tokenize, tokensMarks_append]
    exact tokensMarks_lex_le 1 query.val
  obtain ⟨word, gap, before, _, after', hword, _, hgap, hname, hbefore, rfl, hafter, hbytes⟩ :=
    hquery
  have hoff : ∀ w : List UInt8, Blank w → ∀ c ∈ w, byteClass c ≠ .quote := by
    intro w hw c hc
    rw [(class_of_isBlank (hw c hc)).1]
    decide
  have hcount : literalMarks query.val ≤ (Json.object fields).total marks + literalMarks [] := by
    rw [hbytes,
      literalMarks_append_of_ne fun c hc => (not_quote_of_wordByte (hword.class c hc)).1,
      literalMarks_append_of_ne (hoff gap hgap),
      literalMarks_append_of_ne fun c hc => (not_quote_of_wordByte (hname.class c hc)).1,
      literalMarks_append_of_ne (hoff before hbefore)]
    refine (ht.measured measures_literalMarks (after' ++ [59])).trans ?_
    rw [literalMarks_append_of_ne (hoff after' hafter), literalMarks_cons_of_ne (by decide)]
  rw [show literalMarks [] = 0 by rw [literalMarks]] at hcount
  omega

/-- A body in braces survives if and only if the object has no members. -/
theorem braces_survive_iff {kind : BodyStatement} {name query : CStr} {t : List UInt8}
    {fields : List (List UInt8 × Json)} (hquery : Carries kind .braces name t query)
    (ht : Denotes t (.object fields)) :
    BodySurvives kind name query (.object fields) ↔ fields = [] := by
  constructor
  · rintro ⟨body, after, hparse, hbody⟩
    by_contra hne
    have hkept := marks_of_parse hquery ht hparse
    have hneeded : (Json.object fields).total (fun s => marks s + 2) ≤ marks body.val :=
      hbody.measured measures_marks
    have hlt := @total_object_lt marks (fun s => marks s + 2) (fun s => by omega) fields hne
    omega
  · rintro rfl
    obtain ⟨line, line', line'', _, blank, rfl, -, hblank, htokens⟩ := hquery.tokens fun _ => ht
    obtain ⟨body, rfl, hbody⟩ := denotes_object ht
    obtain ⟨line₄, line₅, hempty⟩ := tokensFrom_empty (hbody rfl) hblank line''
    obtain ⟨after, hparse⟩ := parser_of_empty kind name line line' line'' line₄ line₅
    refine ⟨CStr.lit "\x7b" ++ CStr.lit "\x7d", after, ?_, ?_⟩
    · rw [htokens, hempty, hparse]
    · have hval : (CStr.lit "\x7b" ++ CStr.lit "\x7d").val = 123 :: ([] ++ [125]) := by
        decide +kernel
      rw [hval]
      exact .emptyObject fun c hc => absurd hc List.not_mem_nil

/-- A literal is stored as the text it stands for. -/
theorem literal_survives_iff {kind : BodyStatement} {name query : CStr} {t : List UInt8}
    {fields : List (List UInt8 × Json)} (hquery : Carries kind .literal name t query) :
    BodySurvives kind name query (.object fields) ↔ Denotes t (.object fields) := by
  obtain ⟨line, line', line'', _, blank, ⟨hkind, quote, hquote, typed, hw, rfl⟩, hzero, hblank,
    htokens⟩ := @hquery.tokens _ _ _ _ _ fields nofun
  obtain ⟨line₄, hliteral⟩ := tokensFrom_literal hquote hw hblank line''
  obtain ⟨after, hparse⟩ := parser_of_literal hkind name (CStr.ofBytes t) line line' line'' line₄
  rw [← hliteral, ← htokens] at hparse
  -- an escape never stands for a zero byte
  have htext : (CStr.ofBytes t).val = t := by
    refine CStr.ofBytes_of_notMem fun hmem => hzero ?_
    exact List.mem_cons_of_mem _ (List.mem_append_left _ (hw.zero_mem_iff.mp hmem))
  constructor
  · rintro ⟨body, after', hstored, hbody⟩
    rw [hparse] at hstored
    have hsame : body = CStr.ofBytes t := by
      cases kind <;> cases hstored <;> rfl
    rwa [hsame, htext] at hbody
  · intro ht
    exact ⟨CStr.ofBytes t, after, hparse, htext.symm ▸ ht⟩

/-- An object in braces survives if and only if it has no members, and one in a literal if and only
if the text that the literal stands for denotes it. -/
theorem body_survives_iff (kind : BodyStatement) {form : BodyForm} {name query : CStr}
    {t : List UInt8} {fields : List (List UInt8 × Json)}
    (hquery : Carries kind form name t query)
    (ht : form = .braces → Denotes t (.object fields)) :
    BodySurvives kind name query (.object fields) ↔
      if form = .braces then fields = [] else Denotes t (.object fields) := by
  cases form with
  | braces => exact braces_survive_iff hquery (ht rfl)
  | literal => exact literal_survives_iff hquery

theorem blank_nil : Blank [] :=
  fun _ hc => absurd hc List.not_mem_nil

theorem blank_space : Blank [32] :=
  List.forall_mem_singleton.mpr rfl

theorem readsAs_rakho : ReadsAs (CStr.lit "RAKHO").val .kwRakho :=
  ⟨82, [65, 75, 72, 79], rfl, by decide, List.all_eq_true.mp (by decide),
    rfl⟩

theorem readsAs_logs : ReadsAs (CStr.lit "logs").val .identifier :=
  ⟨108, [111, 103, 115], rfl, by decide, List.all_eq_true.mp (by decide),
    rfl⟩

/-- `{"a":1}` -/
theorem denotes_member :
    Denotes [123, 34, 97, 34, 58, 49, 125] (.object [([97], .number 1)]) := by
  have hdigits : Digits [49] := ⟨List.cons_ne_nil _ _, List.forall_mem_singleton.mpr (by decide)⟩
  have hnumber : NumberDenotes [49] 1 :=
    ⟨[], [49], [], [], 0, .inl rfl, ⟨hdigits, by decide⟩, .inl rfl, .inl ⟨rfl, rfl⟩, rfl,
      by decide +kernel⟩
  have hname : Spells [97] [97] := .plain (by decide) .nil
  exact @Denotes.object [(⟨[], [97], [], [], [49], []⟩, [97], .number 1)] (List.cons_ne_nil _ _)
    (List.forall_mem_singleton.mpr ⟨blank_nil, hname.stringBody, blank_nil, blank_nil, blank_nil⟩)
    (List.forall_mem_singleton.mpr hname) (List.forall_mem_singleton.mpr (.number hnumber))
    _ (List.Perm.refl _)

/-- `RAKHO logs { };` and `RAKHO logs '{"a":1}';` -/
theorem body_survives_iff_empty :
    (BodySurvives .docInsert (CStr.lit "logs")
        (CStr.ofBytes ((CStr.lit "RAKHO logs ").val ++ [123, 32, 125, 59])) (.object []) ↔
      if BodyForm.braces = .braces then ([] : List (List UInt8 × Json)) = []
      else Denotes [123, 32, 125] (.object [])) ∧
    (BodySurvives .docInsert (CStr.lit "logs")
        (CStr.ofBytes ((CStr.lit "RAKHO logs ").val ++
          [39, 123, 34, 97, 34, 58, 49, 125, 39, 59])) (.object [([97], .number 1)]) ↔
      if BodyForm.literal = .braces then [(([97] : List UInt8), Json.number 1)] = []
      else Denotes [123, 34, 97, 34, 58, 49, 125] (.object [([97], .number 1)])) := by
  have hwritten : ∀ t : List UInt8, (t.all fun c => decide (c ≠ 39 ∧ c ≠ 92)) = true →
      Written 39 t t := by
    intro t ht
    induction t with
    | nil => exact .nil
    | cons c t ih =>
        rw [List.all_cons, Bool.and_eq_true, decide_eq_true_eq] at ht
        exact .plain ht.1.1 ht.1.2 (ih ht.2)
  refine ⟨@body_survives_iff .docInsert .braces _ _ [123, 32, 125] [] ?_ fun _ =>
      .emptyObject blank_space,
    @body_survives_iff .docInsert .literal _ _ [123, 34, 97, 34, 58, 49, 125] _ ?_ nofun⟩
  · exact ⟨(CStr.lit "RAKHO").val, [32], [32], _, [], readsAs_rakho, by decide, blank_space,
      readsAs_logs, blank_space, rfl, blank_nil, rfl⟩
  · exact ⟨(CStr.lit "RAKHO").val, [32], [32], _, [], readsAs_rakho, by decide, blank_space,
      readsAs_logs, blank_space, ⟨by decide, 39, by decide, _, hwritten _ (by decide), rfl⟩,
      blank_nil, rfl⟩

/-- `RAKHO logs {"a":1};` -/
def oneMember : CStr :=
  CStr.ofBytes ((CStr.lit "RAKHO logs ").val ++ [123, 34, 97, 34, 58, 49, 125, 59])

/-- One member is enough for a body that does not denote the object. -/
theorem not_body_survives_of_name :
    Carries .docInsert .braces (CStr.lit "logs") [123, 34, 97, 34, 58, 49, 125] oneMember ∧
      Denotes [123, 34, 97, 34, 58, 49, 125] (.object [([97], .number 1)]) ∧
        ¬ BodySurvives .docInsert (CStr.lit "logs") oneMember (.object [([97], .number 1)]) := by
  have hquery : Carries .docInsert .braces (CStr.lit "logs") [123, 34, 97, 34, 58, 49, 125]
      oneMember :=
    ⟨(CStr.lit "RAKHO").val, [32], [32], _, [], readsAs_rakho, by decide, blank_space,
      readsAs_logs, blank_space, rfl, blank_nil, rfl⟩
  refine ⟨hquery, denotes_member, ?_⟩
  rintro ⟨body, after, hparse, hbody⟩
  -- The object needs two marks for its name, and the statement stores none.
  have hkept : marks body.val ≤ 0 := marks_of_parse hquery denotes_member hparse
  have hneeded : 2 ≤ marks body.val := hbody.measured measures_marks
  omega

end Sql
end InventixDB
