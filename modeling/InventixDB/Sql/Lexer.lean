import InventixDB.Storage.CStr

/-!
# Lexer — from the bytes of a query to its tokens

A keyword token carries its type only: the text of the word is kept for identifiers and literals.
Bytes that start no token are dropped.
-/

namespace InventixDB
namespace Sql

open Storage

inductive LexerTokenType
  | eof | identifier | string | intLiteral | floatLiteral | kwTable | kwBanao | kwInsert | kwKaro
  | kwSelect | kwJahan | kwRakho | kwDhundo | kwNikalo | kwFrom | kwValues | kwInt | kwFloat
  | kwStringType | kwTextType | kwBoolType | kwAuto | kwPrimary | kwKey | kwGirao | kwMangwao
  | kwHatao | kwCheckpoint | kwUpdate | kwSet | kwIndex | kwOn | kwCreate | kwUser | kwPassword
  | kwDatabase | kwShow | kwTables | kwUse | kwAnd | kwOr | kwGroup | kwBy | kwCount | kwSum
  | kwAvg | kwMin | kwMax | kwBegin | kwCommit | kwRollback | kwSavepoint | kwRelease
  | kwTransaction | kwStart | kwTo | kwInto | kwIsolation | kwLevel | kwRead | kwWrite
  | kwUncommitted | kwCommitted | kwRepeatable | kwSerializable | kwPrepare | kwExecute
  | kwDeallocate | kwAs | kwUsing | kwJoin | kwInner | kwLeft | kwRight | kwFull | kwOuter
  | kwCross | kwNatural | kwExplain | kwAnalyze | kwOrder | kwAsc | kwDesc | kwLimit | kwOffset
  | kwWhere | kwAlter | kwAdd | kwColumn | kwRename | kwModify | kwConstraint | kwForeign
  | kwReferences | kwCascade | kwRestrict | kwNull | kwNot | kwDefault | kwUnique | kwBackup
  | kwRestore | kwExport | kwImport | kwCollection | kwDocument | kwFind | kwUpsert | kwAggregate
  | kwMatch | kwProject | kwUnwind | kwLookup | kwSort | kwFormat | kwDrop | kwDelete | kwHaving
  | kwDistinct | kwLike | kwIn | kwBetween | kwExists | kwTrue | kwFalse | kwCase | kwWhen
  | kwThen | kwElse | kwEnd | kwCluster | kwNodes | kwReplicate | kwPartition | kwSync | kwHelp
  | kwQuit | kwExit | kwStatus | lparen | rparen | comma | equals | gt | lt | semicolon | lbrace
  | rbrace | lbracket | rbracket | colon | star
  deriving DecidableEq

structure Token where
  type : LexerTokenType
  value : Option CStr
  line : Nat
  deriving DecidableEq

/-! ## Words -/

/-- The words `check_keyword` compares with, in its order. -/
def keywords : List (String × LexerTokenType) :=
  [("TABLE", .kwTable), ("BANAO", .kwBanao), ("INSERT", .kwInsert), ("DAALO", .kwInsert),
    ("DALO", .kwInsert), ("KARO", .kwKaro), ("SELECT", .kwSelect), ("CHUNO", .kwSelect),
    ("DIKHAO", .kwSelect), ("JAHAN", .kwJahan), ("RAKHO", .kwRakho), ("DHUNDO", .kwDhundo),
    ("DHUNDHO", .kwDhundo), ("NIKALO", .kwNikalo), ("MANGWAO", .kwMangwao), ("LAAO", .kwMangwao),
    ("HATAO", .kwHatao), ("CHECKPOINT", .kwCheckpoint), ("FROM", .kwFrom), ("SE", .kwFrom),
    ("VALUES", .kwValues), ("MAAN", .kwValues), ("INT", .kwInt), ("INTEGER", .kwInt),
    ("FLOAT", .kwFloat), ("DOUBLE", .kwFloat), ("STRING", .kwStringType),
    ("VARCHAR", .kwStringType), ("CHAR", .kwStringType), ("TEXT", .kwTextType),
    ("BOOL", .kwBoolType), ("BOOLEAN", .kwBoolType), ("AUTO", .kwAuto), ("PRIMARY", .kwPrimary),
    ("PK", .kwPrimary), ("KEY", .kwKey), ("GIRAO", .kwGirao), ("MITAO", .kwGirao),
    ("INDEX", .kwIndex), ("ON", .kwOn), ("CREATE", .kwCreate), ("USER", .kwUser),
    ("PASSWORD", .kwPassword), ("DATABASE", .kwDatabase), ("DATABASES", .kwDatabase),
    ("SHOW", .kwShow), ("DEKHO", .kwShow), ("TABLES", .kwTables), ("TABLED", .kwTables),
    ("USE", .kwUse), ("ISTEMAAL", .kwUse), ("DELETE", .kwDelete), ("DROP", .kwDrop),
    ("WHERE", .kwJahan), ("UPDATE", .kwUpdate), ("BADLO", .kwUpdate), ("SET", .kwSet),
    ("RAKHO_YEH", .kwSet), ("AND", .kwAnd), ("AUR", .kwAnd), ("OR", .kwOr), ("YA", .kwOr),
    ("GROUP", .kwGroup), ("SAMOOH", .kwGroup), ("BY", .kwBy), ("DWARA", .kwBy),
    ("COUNT", .kwCount), ("GINO", .kwCount), ("SUM", .kwSum), ("JODO", .kwSum), ("AVG", .kwAvg),
    ("AUSAAT", .kwAvg), ("MAX", .kwMax), ("SABSE_BADA", .kwMax), ("MIN", .kwMin),
    ("SABSE_CHOTA", .kwMin), ("FROM", .kwFrom), ("BEGIN", .kwBegin), ("SHURU", .kwBegin),
    ("COMMIT", .kwCommit), ("PUKKA", .kwCommit), ("ROLLBACK", .kwRollback),
    ("WAPAS", .kwRollback), ("SAVEPOINT", .kwSavepoint), ("NISHAAN", .kwSavepoint),
    ("RELEASE", .kwRelease), ("TRANSACTION", .kwTransaction), ("START", .kwStart), ("TO", .kwTo),
    ("INTO", .kwInto), ("MEIN", .kwInto), ("ISOLATION", .kwIsolation), ("LEVEL", .kwLevel),
    ("READ", .kwRead), ("PADHO", .kwRead), ("WRITE", .kwWrite), ("LIKHO", .kwWrite),
    ("UNCOMMITTED", .kwUncommitted), ("COMMITTED", .kwCommitted), ("REPEATABLE", .kwRepeatable),
    ("SERIALIZABLE", .kwSerializable), ("PREPARE", .kwPrepare), ("TAYYAR", .kwPrepare),
    ("EXECUTE", .kwExecute), ("CHALAO", .kwExecute), ("DEALLOCATE", .kwDeallocate),
    ("HATAO_TAYYAR", .kwDeallocate), ("AS", .kwAs), ("JAISE", .kwAs), ("USING", .kwUsing),
    ("ISTEMAL", .kwUsing), ("JOIN", .kwJoin), ("MILAO", .kwJoin), ("INNER", .kwInner),
    ("LEFT", .kwLeft), ("BAAYA", .kwLeft), ("RIGHT", .kwRight), ("DAAYA", .kwRight),
    ("FULL", .kwFull), ("POORA", .kwFull), ("OUTER", .kwOuter), ("BAHAR", .kwOuter),
    ("CROSS", .kwCross), ("NATURAL", .kwNatural), ("KUDRATI", .kwNatural),
    ("EXPLAIN", .kwExplain), ("SAMJHAO", .kwExplain), ("ANALYZE", .kwAnalyze),
    ("ORDER", .kwOrder), ("KRAM", .kwOrder), ("ASC", .kwAsc), ("CHADHTE", .kwAsc),
    ("DESC", .kwDesc), ("UTARTE", .kwDesc), ("LIMIT", .kwLimit), ("SEEMA", .kwLimit),
    ("OFFSET", .kwOffset), ("PAAR", .kwOffset), ("WHERE", .kwWhere), ("ALTER", .kwAlter),
    ("BADLO_TABLE", .kwAlter), ("ADD", .kwAdd), ("JODO_COLUMN", .kwAdd), ("COLUMN", .kwColumn),
    ("STAMBH", .kwColumn), ("RENAME", .kwRename), ("NAAM_BADLO", .kwRename),
    ("MODIFY", .kwModify), ("SUDHAR", .kwModify), ("CONSTRAINT", .kwConstraint),
    ("NIYAM", .kwConstraint), ("FOREIGN", .kwForeign), ("VIDESHI", .kwForeign),
    ("REFERENCES", .kwReferences), ("SANDARBH", .kwReferences), ("CASCADE", .kwCascade),
    ("JHARNA", .kwCascade), ("RESTRICT", .kwRestrict), ("ROKO", .kwRestrict), ("NULL", .kwNull),
    ("KHALI", .kwNull), ("NOT", .kwNot), ("NAHI", .kwNot), ("DEFAULT", .kwDefault),
    ("MOOL", .kwDefault), ("UNIQUE", .kwUnique), ("ANOKHA", .kwUnique), ("BACKUP", .kwBackup),
    ("SURAKSHA", .kwBackup), ("RESTORE", .kwRestore), ("WAPAS_LAO", .kwRestore),
    ("EXPORT", .kwExport), ("BHEJO", .kwExport), ("IMPORT", .kwImport), ("LAAO", .kwImport),
    ("COLLECTION", .kwCollection), ("SANGRAH", .kwCollection), ("DOCUMENT", .kwDocument),
    ("DASTAVEZ", .kwDocument), ("FIND", .kwFind), ("KHOJO", .kwFind), ("UPSERT", .kwUpsert),
    ("DAL_YA_BADLO", .kwUpsert), ("AGGREGATE", .kwAggregate), ("IKATHA", .kwAggregate),
    ("MATCH", .kwMatch), ("MILA", .kwMatch), ("PROJECT", .kwProject), ("PRADARSHI", .kwProject),
    ("UNWIND", .kwUnwind), ("KHOLO", .kwUnwind), ("LOOKUP", .kwLookup), ("DEKHO_MILA", .kwLookup),
    ("SORT", .kwSort), ("KRAM_SE", .kwSort), ("FORMAT", .kwFormat), ("ROOP", .kwFormat),
    ("DROP", .kwDrop), ("HAVING", .kwHaving), ("RAKHTE", .kwHaving), ("JISME", .kwHaving),
    ("DISTINCT", .kwDistinct), ("ALAG", .kwDistinct), ("MUKHTALIF", .kwDistinct),
    ("LIKE", .kwLike), ("JAISA", .kwLike), ("IN", .kwIn), ("ANDAR", .kwIn),
    ("BETWEEN", .kwBetween), ("BEECH", .kwBetween), ("EXISTS", .kwExists), ("MAUJOOD", .kwExists),
    ("TRUE", .kwTrue), ("SACH", .kwTrue), ("HAAN", .kwTrue), ("FALSE", .kwFalse),
    ("JHOOTH", .kwFalse), ("NA", .kwFalse), ("CASE", .kwCase), ("MAAMLA", .kwCase),
    ("WHEN", .kwWhen), ("JAB", .kwWhen), ("THEN", .kwThen), ("PHIR", .kwThen), ("TAB", .kwThen),
    ("ELSE", .kwElse), ("WARNA", .kwElse), ("END", .kwEnd), ("KHATAM", .kwEnd),
    ("CLUSTER", .kwCluster), ("JHAAD", .kwCluster), ("NODES", .kwNodes), ("GRANTHI", .kwNodes),
    ("REPLICATE", .kwReplicate), ("NAKAL", .kwReplicate), ("PARTITION", .kwPartition),
    ("VIBHAJAN", .kwPartition), ("SYNC", .kwSync), ("MILAO_SAATH", .kwSync), ("HELP", .kwHelp),
    ("MADAD", .kwHelp), ("QUIT", .kwQuit), ("NIKLO", .kwQuit), ("BAHAR", .kwQuit),
    ("EXIT", .kwExit), ("KHATAM_KARO", .kwExit), ("STATUS", .kwStatus), ("HALAT", .kwStatus),
    ("STHITI", .kwStatus)]

/-- `check_keyword` -/
def checkKeyword (word : CStr) : LexerTokenType :=
  ((keywords.find? fun k => CStr.sameIgnoringCase word (CStr.lit k.1)).map Prod.snd).getD
    .identifier

/-! ## One round of the loop -/

def symbols : List (Char × LexerTokenType) :=
  [('(', .lparen), (')', .rparen), ('{', .lbrace), ('}', .rbrace), ('[', .lbracket),
    (']', .rbracket), (',', .comma), (';', .semicolon), ('=', .equals), (':', .colon), ('>', .gt),
    ('<', .lt), ('*', .star)]

/-- `isalpha`, in the C locale -/
def isAlpha (c : UInt8) : Bool :=
  (65 ≤ c && c ≤ 90) || (97 ≤ c && c ≤ 122)

/-- What continues a word. -/
def isWordByte (c : UInt8) : Bool :=
  isAlpha c || CStr.isDigit c || c == 95

/-- What continues a number. -/
def isNumberByte (c : UInt8) : Bool :=
  CStr.isDigit c || c == 46

/-- The branch of the loop a byte selects. -/
inductive ByteClass
  | space
  | symbol (type : LexerTokenType)
  | quote
  | digit
  | word
  | unexpected
  deriving DecidableEq

/-- The tests of the loop, in their order. -/
def byteClass (c : UInt8) : ByteClass :=
  if CStr.isSpace c then .space
  else
    match symbols.find? fun s => s.1.toUInt8 == c with
    | some s => .symbol s.2
    | none =>
        if c == 34 || c == 39 then .quote
        else if CStr.isDigit c then .digit
        else if isAlpha c || c == 95 then .word
        else .unexpected

/-- The byte that stands for `\\` followed by `e`. -/
def unescape (e : UInt8) : UInt8 :=
  if e = 110 then 10 else if e = 116 then 9 else e

/-- The contents of a literal after its opening quote, and what follows the closing one. -/
def readString (quote : UInt8) : List UInt8 → List UInt8 × List UInt8
  | [] => ([], [])
  | [c] => if c = quote then ([], []) else ([c], [])
  | c :: e :: rest =>
      if c = quote then ([], e :: rest)
      else if c = 92 then (readString quote rest).map (unescape e :: ·) id
      else (readString quote (e :: rest)).map (c :: ·) id

/-- The token for a run of digits and points. -/
def numberToken (num : List UInt8) (line : Nat) : Token where
  type := if 46 ∈ num then .floatLiteral else .intLiteral
  value := some (CStr.ofBytes num)
  line := line

/-- The token for a word: `value` is NULL for a keyword. -/
def wordToken (word : List UInt8) (line : Nat) : Token :=
  let type := checkKeyword (CStr.ofBytes word)
  { type := type
    value := if type = .identifier then some (CStr.ofBytes word) else none
    line := line }

/-- What one round of the loop does: the token it adds, the line and the input it leaves. -/
structure Round where
  token : Option Token
  line : Nat
  rest : List UInt8

def nextToken (line : Nat) (c : UInt8) (rest : List UInt8) : Round :=
  match byteClass c with
  | .space => { token := none, line := if c = 10 then line + 1 else line, rest := rest }
  | .symbol type =>
      { token := some { type := type, value := some (CStr.ofBytes [c]), line := line }
        line := line
        rest := rest }
  | .quote =>
      let literal := readString c rest
      { token := some { type := .string, value := some (CStr.ofBytes literal.1), line := line }
        line := line
        rest := literal.2 }
  | .digit =>
      { token := some (numberToken (c :: rest.takeWhile isNumberByte) line)
        line := line
        rest := rest.dropWhile isNumberByte }
  | .word =>
      { token := some (wordToken (c :: rest.takeWhile isWordByte) line)
        line := line
        rest := rest.dropWhile isWordByte }
  | .unexpected => { token := none, line := line, rest := rest }

/-! ## The whole input -/

theorem readString_length_le (quote : UInt8) (bs : List UInt8) :
    (readString quote bs).2.length ≤ bs.length := by
  fun_induction readString quote bs with
  | case1 => exact Nat.le_refl _
  | case2 => simp
  | case3 => simp
  | case4 => simp
  | case5 e rest _ ih => exact Nat.le_add_right_of_le (k := 2) ih
  | case6 c e rest _ _ ih => exact Nat.le_add_right_of_le ih

theorem nextToken_length_le (line : Nat) (c : UInt8) (rest : List UInt8) :
    (nextToken line c rest).rest.length ≤ rest.length := by
  unfold nextToken
  cases byteClass c with
  | space => exact Nat.le_refl _
  | symbol type => exact Nat.le_refl _
  | quote => exact readString_length_le c rest
  | digit => exact (List.dropWhile_suffix _).length_le
  | word => exact (List.dropWhile_suffix _).length_le
  | unexpected => exact Nat.le_refl _

/-- The tokens of the input, without the one for its end, and the line reached. -/
def lex (line : Nat) : List UInt8 → List Token × Nat
  | [] => ([], line)
  | c :: rest =>
      let round := nextToken line c rest
      let r := lex round.line round.rest
      (round.token.toList ++ r.1, r.2)
termination_by bs => bs.length
decreasing_by exact Nat.lt_succ_of_le (nextToken_length_le line c rest)

def tokenize (input : CStr) : List Token :=
  let r := lex 1 input.val
  r.1 ++ [{ type := .eof, value := none, line := r.2 }]

/-! ## Which tokens have a text -/

/-- The types of the tokens that keep their text. -/
def textTypes : List LexerTokenType :=
  [.identifier, .string, .intLiteral, .floatLiteral, .lparen, .rparen, .lbrace, .rbrace, .lbracket,
    .rbracket, .comma, .semicolon, .equals, .colon, .gt, .lt, .star]

/-- A token with a text is no keyword, and the text of an identifier is none either. -/
def Token.TextFits (t : Token) : Prop :=
  ∀ v ∈ t.value, t.type ∈ textTypes ∧ (t.type = .identifier → checkKeyword v = .identifier)

theorem symbol_textTypes {c : UInt8} {type : LexerTokenType} (hc : byteClass c = .symbol type) :
    type ∈ textTypes ∧ type ≠ .identifier := by
  have hall : ∀ s ∈ symbols, s.2 ∈ textTypes ∧ s.2 ≠ .identifier := by decide
  unfold byteClass at hc
  split at hc
  · cases hc
  · split at hc
    · next s hfind =>
        cases hc
        exact hall s (List.mem_of_find?_eq_some hfind)
    · split at hc
      · cases hc
      · split at hc
        · cases hc
        · split at hc <;> cases hc

theorem nextToken_textFits (line : Nat) (c : UInt8) (rest : List UInt8) :
    ∀ t ∈ (nextToken line c rest).token, t.TextFits := by
  unfold nextToken
  cases hclass : byteClass c with
  | space => simp
  | unexpected => simp
  | symbol type =>
      obtain ⟨htype, hne⟩ := symbol_textTypes hclass
      rintro t ht v _
      cases ht
      exact ⟨htype, fun heq => absurd heq hne⟩
  | quote =>
      rintro t ht v _
      cases ht
      exact ⟨show LexerTokenType.string ∈ textTypes by decide, fun heq => by cases heq⟩
  | digit =>
      rintro t ht v _
      cases ht
      simp only [numberToken]
      split <;> exact ⟨by decide, fun heq => absurd heq (by decide)⟩
  | word =>
      rintro t ht v hv
      cases ht
      simp only [wordToken, Option.mem_def, Option.ite_none_right_eq_some] at hv ⊢
      obtain ⟨htype, hv⟩ := hv
      cases hv
      rw [htype]
      exact ⟨by decide, fun _ => rfl⟩

theorem lex_textFits (line : Nat) (bs : List UInt8) : ∀ t ∈ (lex line bs).1, t.TextFits := by
  fun_induction lex line bs with
  | case1 => simp
  | case2 line c rest round r ih =>
      intro t ht
      rcases List.mem_append.mp ht with ht | ht
      · exact nextToken_textFits line c rest t (Option.mem_toList.mp ht)
      · exact ih t ht

theorem tokenize_textFits (input : CStr) : ∀ t ∈ tokenize input, t.TextFits := by
  intro t ht
  rcases List.mem_append.mp ht with ht | ht
  · exact lex_textFits 1 input.val t ht
  · cases List.mem_singleton.mp ht
    intro v hv
    cases hv

/-- A text the lexer reads as one word. -/
def isWord (s : CStr) : Bool :=
  s.val.all isWordByte

theorem isWordByte_of_word {c : UInt8} (hc : byteClass c = .word) : isWordByte c = true := by
  unfold byteClass at hc
  split at hc
  · cases hc
  split at hc
  · cases hc
  split at hc
  · cases hc
  split at hc
  · cases hc
  split at hc
  · next hword => simp [isWordByte, Bool.or_right_comm, hword]
  · cases hc

theorem isDigit_of_digit {c : UInt8} (hc : byteClass c = .digit) : CStr.isDigit c = true := by
  unfold byteClass at hc
  split at hc
  · cases hc
  split at hc
  · cases hc
  split at hc
  · cases hc
  split at hc
  · assumption
  split at hc <;> cases hc

theorem checkKeyword_ne_identifier {word : CStr} {k : String × LexerTokenType}
    (hk : k ∈ keywords) (hsame : CStr.sameIgnoringCase word (CStr.lit k.1) = true) :
    checkKeyword word ≠ .identifier := by
  have hall : ∀ k ∈ keywords, k.2 ≠ .identifier := by decide +kernel
  have hfound : (keywords.find? fun k =>
      CStr.sameIgnoringCase word (CStr.lit k.1)).isSome = true :=
    List.find?_isSome.mpr ⟨k, hk, hsame⟩
  obtain ⟨first, hfirst⟩ := Option.isSome_iff_exists.mp hfound
  rw [checkKeyword, hfirst]
  exact hall first (List.mem_of_find?_eq_some hfirst)

end Sql
end InventixDB
