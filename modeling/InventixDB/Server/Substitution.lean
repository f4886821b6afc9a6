import InventixDB.Server.Prepared
import InventixDB.Sql.Pieces

/-!
# Substitution — what the lexer makes of a substituted statement

A parameter should come out as one literal token in place of its marker.  It does where the scan
finds the markers the lexer would find, every parameter prints as a literal of the lexer, and no
printed parameter runs into a neighbouring token (`Faithful`).
-/

namespace InventixDB
namespace Server

open Storage
open Sql

/-! ## What the text should mean -/

/-- The token that denotes a parameter. -/
def literalToken : Parameter → Nat → Token
  | .null, line => { type := .kwNull, value := none, line := line }
  | .int value, line =>
      { type := .intLiteral, value := some (CStr.ofInt value.toInt), line := line }
  | .bool value, line =>
      { type := if value then .kwTrue else .kwFalse, value := none, line := line }
  | .string data, line => { type := .string, value := some data, line := line }
  | .float printed, line => { type := .floatLiteral, value := some printed, line := line }

/-- The tokens of the template with a literal token for each marker; there is no such list when
markers and parameters differ in number. -/
def expectedTokens (line : Nat) : List Piece → List Parameter → Option (List Token)
  | [], [] => some [{ type := .eof, value := none, line := line }]
  | [], _ :: _ => none
  | .marker :: _, [] => none
  | .marker :: ps, param :: params =>
      (expectedTokens line ps params).map (literalToken param line :: ·)
  | .text c used :: ps, params =>
      (expectedTokens (nextToken line c used).line ps params).map
        ((nextToken line c used).token.toList ++ ·)

/-- The query reads as the template with its parameters as literals. -/
def ReadsBack (template : CStr) (params : List Parameter) (query : CStr) : Prop :=
  expectedTokens 1 (pieces template.val) params = some (tokenize query)

/-! ## When it does -/

/-- The text with the parameters in place of the markers. -/
def filledText : List Piece → List Parameter → List UInt8
  | [], _ => []
  | .marker :: ps, param :: params => (paramToString param).val ++ filledText ps params
  | .marker :: ps, [] => 63 :: filledText ps []
  | .text c used :: ps, params => c :: used ++ filledText ps params

/-- The parameter prints as one literal: an integer without a sign, or a string that fits the
buffer and holds neither a quote nor a backslash. -/
def Parameter.Plain : Parameter → Prop
  | .null => True
  | .int value => 0 ≤ value.toInt
  | .bool _ => True
  | .string data => data.length < 4094 ∧ 39 ∉ data.val ∧ 92 ∉ data.val
  | .float _ => False

/-- The token at the start of `text` ends there, whatever of `rest` follows. -/
def EndsBefore (text rest : List UInt8) : Prop :=
  ∀ a ∈ text.head?, ∀ b ∈ rest.head?, continues a b = false

/-- Every parameter prints as one literal, and neither it nor the text before it runs on. -/
def Separate : List Piece → List Parameter → Prop
  | [], params => params = []
  | .marker :: _, [] => False
  | .marker :: ps, param :: params =>
      param.Plain ∧ EndsBefore (paramToString param).val (filledText ps params) ∧
        Separate ps params
  | .text c _ :: ps, params => EndsBefore [c] (filledText ps params) ∧ Separate ps params

/-- The scan for markers agrees with the lexer. -/
def MarkersAgree (template : CStr) : Prop :=
  findParameters template = markerPositions 0 (pieces template.val)

/-- The condition on a template and its parameters. -/
def Faithful (template : CStr) (params : List Parameter) : Prop :=
  MarkersAgree template ∧ Separate (pieces template.val) params

/-- A float is printed by the rules of `%f`. -/
def Parameter.isFloat : Parameter → Bool
  | .float _ => true
  | _ => false

/-- A string that `param_to_string` does not cut off. -/
def Parameter.Fits : Parameter → Prop
  | .string data => data.length < 4094
  | _ => True

instance (param : Parameter) : Decidable param.Plain :=
  match param with
  | .null => isTrue trivial
  | .int value => inferInstanceAs (Decidable (0 ≤ value.toInt))
  | .bool _ => isTrue trivial
  | .string data =>
      inferInstanceAs (Decidable (data.length < 4094 ∧ 39 ∉ data.val ∧ 92 ∉ data.val))
  | .float _ => isFalse id

-- a search could settle on the instance that tries every byte
instance (text rest : List UInt8) : Decidable (EndsBefore text rest) :=
  haveI : DecidablePred fun a : UInt8 => ∀ b ∈ rest.head?, continues a b = false :=
    fun _ => Option.decidableForallMem _
  Option.decidableForallMem text.head?

instance decidableSeparate : (ps : List Piece) → (params : List Parameter) →
    Decidable (Separate ps params)
  | [], params => inferInstanceAs (Decidable (params = []))
  | .marker :: _, [] => isFalse id
  | .marker :: ps, param :: params =>
      haveI := decidableSeparate ps params
      inferInstanceAs (Decidable (param.Plain ∧
        EndsBefore (paramToString param).val (filledText ps params) ∧ Separate ps params))
  | .text c _ :: ps, params =>
      haveI := decidableSeparate ps params
      inferInstanceAs (Decidable (EndsBefore [c] (filledText ps params) ∧ Separate ps params))

instance (template : CStr) (params : List Parameter) : Decidable (Faithful template params) :=
  inferInstanceAs (Decidable
    (findParameters template = markerPositions 0 (pieces template.val) ∧
      Separate (pieces template.val) params))

instance (template : CStr) (params : List Parameter) (query : CStr) :
    Decidable (ReadsBack template params query) :=
  inferInstanceAs
    (Decidable (expectedTokens 1 (pieces template.val) params = some (tokenize query)))

/-! ## Printed parameters -/

theorem digit_of_isDigit {b : UInt8} (hb : CStr.isDigit b = true) :
    ∃ d < 10, b = UInt8.ofNat (48 + d) := by
  simp only [CStr.isDigit, Bool.and_eq_true, decide_eq_true_eq, UInt8.le_iff_toNat_le] at hb
  obtain ⟨hlow, hhigh⟩ := hb
  change 48 ≤ b.toNat at hlow
  change b.toNat ≤ 57 at hhigh
  refine ⟨b.toNat - 48, by omega, ?_⟩
  rw [Nat.add_sub_cancel' hlow, UInt8.ofNat_toNat]

theorem byteClass_of_isDigit {b : UInt8} (hb : CStr.isDigit b = true) : byteClass b = .digit := by
  obtain ⟨d, hd, rfl⟩ := digit_of_isDigit hb
  revert d
  decide

theorem isNumberByte_of_isDigit {b : UInt8} (hb : CStr.isDigit b = true) :
    isNumberByte b = true := by
  simp [isNumberByte, hb]

theorem paramToString_int (value : Int64) :
    (paramToString (.int value)).val =
      (if value.toInt < 0 then [45] else []) ++ CStr.decimal value.toInt.natAbs := by
  have hlt : value.toInt.natAbs < 10 ^ (18 + 1) := by
    have hlow := value.le_toInt
    have hhigh := value.toInt_lt
    omega
  have hlen : (CStr.decimal value.toInt.natAbs).length ≤ 19 := by
    rw [CStr.decimal, List.length_reverse]
    exact CStr.length_digitsRev_le (k := 18) hlt
  have hfits : (CStr.ofInt value.toInt).length < 4096 := by
    rw [CStr.length, CStr.val_ofInt, List.length_append]
    split <;> simp only [List.length_nil, List.length_singleton] <;> omega
  rw [paramToString, CStr.snprintf_of_lt hfits, CStr.val_ofInt]

theorem paramToString_string {data : CStr} (hfits : data.length < 4094) :
    (paramToString (.string data)).val = 39 :: (data.val ++ [39]) := by
  have hshown : shownString data = data := by
    have hprecision : ∀ n : Nat, n < 4094 → (n : Int).bmod (2 ^ 32) = n :=
      fun n hn => Int.bmod_eq_of_le (by omega) (by omega)
    have htake : data.val.take data.length = data.val := List.take_length
    unfold shownString
    rw [hprecision data.length hfits]
    change (if (data.length : Int) < 0 then data else
      CStr.ofBytes (data.val.take (data.length : Int).toNat)) = data
    rw [if_neg (by omega), Int.toNat_natCast, htake, CStr.ofBytes_val]
  have hquote : (CStr.lit "'").val = [39] := rfl
  have hlen : (CStr.lit "'" ++ data ++ CStr.lit "'").length < 4096 := by
    simp only [CStr.length, CStr.val_append, hquote, List.length_append, List.length_singleton]
    unfold CStr.length at hfits
    omega
  rw [paramToString, hshown, CStr.snprintf_of_lt hlen]
  simp [hquote]

theorem paramToString_null : (paramToString .null).val = [78, 85, 76, 76] := rfl

theorem paramToString_true : (paramToString (.bool true)).val = [84, 82, 85, 69] := rfl

theorem paramToString_false : (paramToString (.bool false)).val = [70, 65, 76, 83, 69] := rfl

/-! ## Words around a literal -/

/-- The words a parameter prints as. -/
def literalWords : List (List UInt8) :=
  [[78, 85, 76, 76], [84, 82, 85, 69], [70, 65, 76, 83, 69]]

/-- No keyword holds a digit, and none holds a literal word next to anything else. -/
theorem keywords_plain : keywords.all (fun k =>
    let word := (CStr.lit k.1).val.map CStr.lowerByte
    word.all (fun b => !CStr.isDigit b) &&
      literalWords.all fun w =>
        word.tails.all fun t =>
          !(w.map CStr.lowerByte).isPrefixOf t || word == w.map CStr.lowerByte) = true := by
  decide +kernel

/-- A word that is a keyword is one of the table, up to case. -/
theorem keyword_of_checkKeyword {word : CStr} (hword : checkKeyword word ≠ .identifier) :
    ∃ k ∈ keywords, word.val.map CStr.lowerByte = (CStr.lit k.1).val.map CStr.lowerByte := by
  unfold checkKeyword at hword
  cases hfind : keywords.find? fun k => CStr.sameIgnoringCase word (CStr.lit k.1) with
  | none => simp [hfind] at hword
  | some k =>
      have hsame := List.find?_some hfind
      exact ⟨k, List.mem_of_find?_eq_some hfind, eq_of_beq hsame⟩

theorem lowerByte_of_isDigit {b : UInt8} (hb : CStr.isDigit b = true) : CStr.lowerByte b = b := by
  obtain ⟨d, hd, rfl⟩ := digit_of_isDigit hb
  revert d
  decide

/-- A word with a digit in it is an identifier. -/
theorem checkKeyword_digit {word : CStr} {b : UInt8} (hb : b ∈ word.val)
    (hdigit : CStr.isDigit b = true) : checkKeyword word = .identifier := by
  by_contra hword
  obtain ⟨k, hk, hsame⟩ := keyword_of_checkKeyword hword
  have hplain := List.all_eq_true.mp keywords_plain k hk
  have hall := (Bool.and_eq_true_iff.mp hplain).1
  have hmem : b ∈ (CStr.lit k.1).val.map CStr.lowerByte := by
    rw [← hsame, ← lowerByte_of_isDigit hdigit]
    exact List.mem_map_of_mem hb
  have hno := List.all_eq_true.mp hall b hmem
  simp [hdigit] at hno

/-- A literal word with anything before or behind it is an identifier. -/
theorem checkKeyword_around (pre post : List UInt8) {word : CStr} {lit : List UInt8}
    (hlit : lit ∈ literalWords) (hword : word.val = pre ++ (lit ++ post))
    (haround : pre ≠ [] ∨ post ≠ []) :
    checkKeyword word = .identifier := by
  by_contra hkeyword
  obtain ⟨k, hk, hsame⟩ := keyword_of_checkKeyword hkeyword
  have hplain := List.all_eq_true.mp keywords_plain k hk
  have hlits := (Bool.and_eq_true_iff.mp hplain).2
  have htails := List.all_eq_true.mp hlits lit hlit
  rw [hword, List.map_append, List.map_append] at hsame
  rw [← hsame] at htails
  have htail := List.all_eq_true.mp htails _
    ((List.mem_tails _ _).mpr (List.suffix_append _ _))
  have hlead : (lit.map CStr.lowerByte).isPrefixOf
      (lit.map CStr.lowerByte ++ post.map CStr.lowerByte) = true :=
    List.isPrefixOf_iff_prefix.mpr (List.prefix_append _ _)
  rw [hlead, Bool.not_true, Bool.false_or, beq_iff_eq] at htail
  have hlen := congrArg List.length htail
  simp only [List.length_append, List.length_map] at hlen
  rcases haround with hpre | hpost
  · have := List.length_pos_of_ne_nil hpre
    omega
  · have := List.length_pos_of_ne_nil hpost
    omega

theorem wordToken_ne {short long : List UInt8} (line : Nat) (hshort : 0 ∉ short)
    (hlong : 0 ∉ long) (hne : short ≠ long)
    (hword : checkKeyword (CStr.ofBytes long) = .identifier) :
    wordToken short line ≠ wordToken long line := by
  intro heq
  have hvalue := congrArg Token.value heq
  by_cases hkeyword : checkKeyword (CStr.ofBytes short) = .identifier
  · simp only [wordToken, hkeyword, hword, if_true, Option.some_inj] at hvalue
    exact hne (CStr.ofBytes_inj hshort hlong hvalue)
  · simp [wordToken, hkeyword, hword] at hvalue

/-! ## One literal -/

theorem zero_notMem_of_all {p : UInt8 → Bool} (hp : p 0 = false) {bs : List UInt8}
    (hbs : ∀ b ∈ bs, p b = true) : 0 ∉ bs := by
  intro hmem
  have hzero := hbs 0 hmem
  rw [hp] at hzero
  cases hzero

/-- A literal word is read as its keyword exactly when no word byte follows. -/
theorem tokensFrom_literalWord (c : UInt8) (ws : List UInt8) (type : LexerTokenType)
    (hlit : c :: ws ∈ literalWords) (hword : ∀ b ∈ c :: ws, isWordByte b = true)
    (hclass : byteClass c = .word) (htype : checkKeyword (CStr.ofBytes (c :: ws)) = type)
    (hkeyword : type ≠ .identifier) (line : Nat) (X : List UInt8) (E : List Token) :
    tokensFrom line (c :: ws ++ X) = { type := type, value := none, line := line } :: E ↔
      EndsBefore (c :: ws) X ∧ tokensFrom line X = E := by
  have hends : EndsBefore (c :: ws) X ↔ X.takeWhile isWordByte = [] := by
    rw [← ends_iff_takeWhile]
    simp [EndsBefore, continues, hclass]
  rw [List.cons_append, tokensFrom_word hclass (fun b hb => hword b (List.mem_cons_of_mem c hb)),
    hends]
  by_cases hX : X.takeWhile isWordByte = []
  · have hdrop : X.dropWhile isWordByte = X := by
      have happend := List.takeWhile_append_dropWhile (p := isWordByte) (l := X)
      rwa [hX] at happend
    rw [hX, hdrop, List.append_nil]
    simp [wordToken, htype, hkeyword]
  · -- the longer word is an identifier, and so no keyword token
    have hlong : checkKeyword (CStr.ofBytes (c :: (ws ++ X.takeWhile isWordByte))) =
        .identifier := by
      refine checkKeyword_around [] _ hlit ?_ (Or.inr hX)
      refine CStr.ofBytes_of_notMem (zero_notMem_of_all (p := isWordByte) (by decide) ?_)
      intro b hb
      rcases List.mem_append.mp (List.cons_append ▸ hb) with hb | hb
      · exact hword b hb
      · exact List.mem_takeWhile_imp hb
    simp [wordToken, hlong, hX]

/-- A string without quotes and backslashes is read as it is. -/
theorem readString_plain_text {s : List UInt8} (hquote : 39 ∉ s) (hescape : 92 ∉ s)
    (X : List UInt8) : readString 39 (s ++ 39 :: X) = (s, X) := by
  induction s with
  | nil => exact readString_quote 39 X
  | cons c s ih =>
      rw [List.mem_cons, not_or] at hquote hescape
      rw [List.cons_append, readString_plain _ (Ne.symm hquote.1) (Ne.symm hescape.1),
        ih hquote.2 hescape.2]
      rfl

theorem unescape_eq_backslash {e : UInt8} (he : unescape e = 92) : e = 92 := by
  unfold unescape at he
  split at he
  · cases he
  split at he
  · cases he
  · exact he

/-- No text reads as itself behind a run of backslashes: reading halves the run. -/
theorem readString_ne_backslashes (k : Nat) (t X : List UInt8) :
    (readString 39 (t ++ 39 :: X)).1 ≠ List.replicate (k + 1) 92 ++ t := by
  induction hn : t.length using Nat.strong_induction_on generalizing k t with
  | h n ih =>
    match t with
    | [] => simp [readString_quote]
    | [c] =>
        by_cases hc : c = 92
        · subst hc
          rw [List.singleton_append, readString_escape 39 X (by decide)]
          simp [unescape, List.replicate_succ]
        · by_cases hq : c = 39
          · subst hq
            simp [readString_quote]
          · rw [List.singleton_append, readString_plain _ hq hc]
            simp [hc, List.replicate_succ]
    | c :: e :: t =>
        by_cases hc : c = 92
        · subst hc
          rw [List.cons_append, List.cons_append, readString_escape e _ (by decide)]
          intro heq
          rw [List.replicate_succ, List.cons_append] at heq
          obtain ⟨hhead, htail⟩ := List.cons.inj heq
          -- only a second backslash reads as a backslash, so the run goes on
          cases unescape_eq_backslash hhead
          refine ih t.length (by simp at hn; omega) (k + 1) t rfl ?_
          have hcomm : List.replicate k (92 : UInt8) ++ 92 :: 92 :: t =
              List.replicate (k + 1 + 1) 92 ++ t := by
            rw [List.replicate_succ', List.replicate_succ']
            simp
          exact (show _ = _ from htail).trans hcomm
        · by_cases hq : c = 39
          · subst hq
            simp [readString_quote]
          · rw [List.cons_append, readString_plain _ hq hc]
            simp [hc, List.replicate_succ]

/-- A string that is read as itself holds neither a quote nor a backslash. -/
theorem plain_text_of_readString {s X : List UInt8} (hs : (readString 39 (s ++ 39 :: X)).1 = s) :
    39 ∉ s ∧ 92 ∉ s := by
  induction s with
  | nil => simp
  | cons c s ih =>
      have hquote : c ≠ 39 := by
        rintro rfl
        simp [readString_quote] at hs
      have hescape : c ≠ 92 := by
        rintro rfl
        cases s with
        | nil =>
            rw [List.singleton_append, readString_escape 39 X (by decide)] at hs
            simp [unescape] at hs
        | cons e s =>
            rw [List.cons_append, List.cons_append, readString_escape e _ (by decide)] at hs
            obtain ⟨hhead, htail⟩ := List.cons.inj hs
            cases unescape_eq_backslash hhead
            exact readString_ne_backslashes 0 s X htail
      rw [List.cons_append, readString_plain _ hquote hescape] at hs
      obtain ⟨hnoquote, hnoescape⟩ := ih (List.cons.inj hs).2
      simp [hnoquote, hnoescape, Ne.symm hquote, Ne.symm hescape]

/-- A byte other than zero comes out of a literal only if it went in. -/
theorem zero_notMem_readString {q : UInt8} {bs : List UInt8} (hbs : 0 ∉ bs) :
    0 ∉ (readString q bs).1 := by
  fun_induction readString q bs with
  | case1 => simp
  | case2 => simp
  | case3 => simpa using hbs
  | case4 => simp
  | case5 e rest hq ih =>
      simp only [List.mem_cons, not_or] at hbs
      have he : 0 ≠ unescape e := by
        unfold unescape
        split
        · decide
        · split
          · decide
          · exact hbs.2.1
      exact fun hmem => (List.mem_cons.mp hmem).elim he (ih hbs.2.2)
  | case6 c e rest hq hc ih =>
      rw [List.mem_cons, not_or] at hbs
      exact fun hmem => (List.mem_cons.mp hmem).elim hbs.1 (ih hbs.2)

/-- A string is read as one token with its text exactly when it is plain. -/
theorem tokensFrom_string {data : CStr} (hfits : data.length < 4094) (line : Nat)
    {X : List UInt8} (hX : 0 ∉ X) (E : List Token) :
    tokensFrom line ((paramToString (.string data)).val ++ X) =
        literalToken (.string data) line :: E ↔
      (39 ∉ data.val ∧ 92 ∉ data.val) ∧ tokensFrom line X = E := by
  have hassoc : data.val ++ [39] ++ X = data.val ++ 39 :: X := by simp
  have hround : tokensFrom line ((paramToString (.string data)).val ++ X) =
      { type := .string
        value := some (CStr.ofBytes (readString 39 (data.val ++ 39 :: X)).1)
        line := line } :: tokensFrom line (readString 39 (data.val ++ 39 :: X)).2 := by
    rw [paramToString_string hfits, List.cons_append, hassoc, tokensFrom_cons]
    rfl
  rw [hround]
  constructor
  · intro htokens
    obtain ⟨hhead, htail⟩ := List.cons.inj htokens
    have hvalue : CStr.ofBytes (readString 39 (data.val ++ 39 :: X)).1 = data :=
      Option.some_inj.mp (congrArg Token.value hhead)
    have hzero : 0 ∉ data.val ++ 39 :: X := by
      simp [data.property, hX]
    have hread : (readString 39 (data.val ++ 39 :: X)).1 = data.val := by
      rw [← CStr.ofBytes_of_notMem (zero_notMem_readString hzero), hvalue]
    obtain ⟨hquote, hescape⟩ := plain_text_of_readString hread
    rw [readString_plain_text hquote hescape] at htail
    exact ⟨⟨hquote, hescape⟩, htail⟩
  · rintro ⟨⟨hquote, hescape⟩, rfl⟩
    rw [readString_plain_text hquote hescape, CStr.ofBytes_val]
    rfl

/-- An integer is read as one token with its digits exactly when it has no sign and neither a
digit nor a point follows. -/
theorem tokensFrom_int (value : Int64) (line : Nat) (X : List UInt8) (E : List Token) :
    tokensFrom line ((paramToString (.int value)).val ++ X) =
        literalToken (.int value) line :: E ↔
      0 ≤ value.toInt ∧ EndsBefore (paramToString (.int value)).val X ∧
        tokensFrom line X = E := by
  have hdigits : ∀ b ∈ CStr.decimal value.toInt.natAbs, CStr.isDigit b = true :=
    fun b hb => CStr.isDigit_of_mem_decimal hb
  obtain ⟨d, ds, hdecimal⟩ := List.exists_cons_of_ne_nil (CStr.decimal_ne_nil value.toInt.natAbs)
  rw [hdecimal] at hdigits
  have hclass : byteClass d = .digit := byteClass_of_isDigit (hdigits d List.mem_cons_self)
  have hrun : ∀ b ∈ ds, isNumberByte b = true :=
    fun b hb => isNumberByte_of_isDigit (hdigits b (List.mem_cons_of_mem d hb))
  have hnumber := tokensFrom_number hclass hrun line X
  have hrunVal : (CStr.ofBytes (d :: (ds ++ X.takeWhile isNumberByte))).val =
      d :: (ds ++ X.takeWhile isNumberByte) := by
    refine CStr.ofBytes_of_notMem (zero_notMem_of_all (p := isNumberByte) (by decide) ?_)
    intro b hb
    rcases List.mem_cons.mp hb with rfl | hb
    · exact isNumberByte_of_isDigit (hdigits b List.mem_cons_self)
    · rcases List.mem_append.mp hb with hb | hb
      · exact hrun b hb
      · exact List.mem_takeWhile_imp hb
  rw [paramToString_int, hdecimal]
  by_cases hsign : value.toInt < 0
  · -- the sign is dropped, so that the token has other bytes than the number
    rw [if_pos hsign, List.cons_append, List.nil_append, List.cons_append, tokensFrom_cons]
    have hdrop : nextToken line 45 (d :: ds ++ X) =
        { token := none, line := line, rest := d :: (ds ++ X) } := rfl
    rw [hdrop, Option.toList_none, List.nil_append, hnumber]
    constructor
    · intro htokens
      have hvalue : CStr.ofBytes (d :: (ds ++ X.takeWhile isNumberByte)) =
          CStr.ofInt value.toInt :=
        Option.some_inj.mp (congrArg Token.value (List.cons.inj htokens).1)
      have hbytes := congrArg Subtype.val hvalue
      rw [hrunVal, CStr.val_ofInt, if_pos hsign, List.cons_append] at hbytes
      have hd := hdigits d List.mem_cons_self
      rw [(List.cons.inj hbytes).1] at hd
      exact absurd hd (by decide)
    · rintro ⟨hnonneg, _⟩
      omega
  · have hends : EndsBefore (d :: ds) X ↔ X.takeWhile isNumberByte = [] := by
      rw [← ends_iff_takeWhile]
      simp [EndsBefore, continues, hclass]
    rw [if_neg hsign, List.nil_append, List.cons_append, hnumber, hends]
    have hlit : (CStr.ofInt value.toInt).val = d :: ds := by
      rw [CStr.val_ofInt, if_neg hsign, List.nil_append, hdecimal]
    have hnopoint : 46 ∉ d :: ds := by
      intro hmem
      exact absurd (hdigits 46 hmem) (by decide)
    constructor
    · intro htokens
      obtain ⟨hhead, htail⟩ := List.cons.inj htokens
      have hvalue : CStr.ofBytes (d :: (ds ++ X.takeWhile isNumberByte)) =
          CStr.ofInt value.toInt :=
        Option.some_inj.mp (congrArg Token.value hhead)
      have hbytes := congrArg Subtype.val hvalue
      rw [hrunVal, hlit] at hbytes
      have hnil : X.takeWhile isNumberByte = [] := by
        simpa using (List.cons.inj hbytes).2
      have happend := List.takeWhile_append_dropWhile (p := isNumberByte) (l := X)
      rw [hnil, List.nil_append] at happend
      rw [happend] at htail
      exact ⟨by omega, hnil, htail⟩
    · rintro ⟨_, hnil, rfl⟩
      have happend := List.takeWhile_append_dropWhile (p := isNumberByte) (l := X)
      rw [hnil, List.nil_append] at happend
      have hofBytes : CStr.ofBytes (d :: ds) = CStr.ofInt value.toInt := by
        rw [← hlit, CStr.ofBytes_val]
      rw [hnil, List.append_nil, happend, numberToken, if_neg hnopoint, hofBytes]
      rfl

/-- One printed parameter is read as its literal exactly when it is plain and runs into nothing. -/
theorem tokensFrom_literal {param : Parameter} (hfloat : param.isFloat = false)
    (hfits : param.Fits) (line : Nat) {X : List UInt8} (hX : 0 ∉ X) (E : List Token) :
    tokensFrom line ((paramToString param).val ++ X) = literalToken param line :: E ↔
      param.Plain ∧ EndsBefore (paramToString param).val X ∧ tokensFrom line X = E := by
  cases param with
  | null =>
      have hword := tokensFrom_literalWord 78 [85, 76, 76] .kwNull (by decide)
        (List.all_eq_true.mp (by decide)) (by decide) (by decide) (by decide) line X E
      rw [paramToString_null]
      simpa [Parameter.Plain, literalToken] using hword
  | int value => exact tokensFrom_int value line X E
  | bool value =>
      cases value with
      | true =>
          have hword := tokensFrom_literalWord 84 [82, 85, 69] .kwTrue (by decide)
            (List.all_eq_true.mp (by decide)) (by decide) (by decide) (by decide) line X E
          rw [paramToString_true]
          simpa [Parameter.Plain, literalToken] using hword
      | false =>
          have hword := tokensFrom_literalWord 70 [65, 76, 83, 69] .kwFalse (by decide)
            (List.all_eq_true.mp (by decide)) (by decide) (by decide) (by decide) line X E
          rw [paramToString_false]
          simpa [Parameter.Plain, literalToken] using hword
  | string data =>
      have hends : EndsBefore (paramToString (.string data)).val X := by
        rw [paramToString_string hfits]
        intro a ha b _
        cases Option.some_inj.mp ha
        rfl
      rw [tokensFrom_string hfits line hX]
      exact ⟨fun h => ⟨⟨hfits, h.1⟩, hends, h.2⟩, fun h => ⟨h.1.2, h.2.2⟩⟩
  | float printed => cases hfloat

/-! ## The whole text -/

theorem zero_notMem_filledText {ps : List Piece} (hps : 0 ∉ ps.flatMap Piece.bytes)
    (params : List Parameter) : 0 ∉ filledText ps params := by
  induction ps generalizing params with
  | nil => simp [filledText]
  | cons piece ps ih =>
      rw [List.flatMap_cons, List.mem_append, not_or] at hps
      cases piece with
      | marker =>
          cases params with
          | nil => simpa [filledText] using ih hps.2 []
          | cons param params =>
              simpa [filledText] using ⟨(paramToString param).property, ih hps.2 params⟩
      | text c used =>
          have hbytes : 0 ∉ c :: used := hps.1
          rw [filledText, List.mem_append]
          exact not_or.mpr ⟨hbytes, ih hps.2 params⟩

/-- A word that runs into the parameter behind it is not read as the word. -/
theorem word_runs_on {c : UInt8} {used X : List UInt8} {param : Parameter}
    (hfloat : param.isFloat = false) (hfits : param.Fits) (hclass : byteClass c = .word)
    (hused : ∀ b ∈ used, isWordByte b = true)
    (hends : ¬ EndsBefore [c] ((paramToString param).val ++ X)) (line : Nat) :
    wordToken (c :: used) line ≠
      wordToken (c :: (used ++ ((paramToString param).val ++ X).takeWhile isWordByte)) line := by
  have hc : isWordByte c = true := isWordByte_of_word hclass
  have hrun : ((paramToString param).val ++ X).takeWhile isWordByte ≠ [] := by
    intro hnil
    rw [← ends_iff_takeWhile] at hnil
    refine hends fun a ha b hb => ?_
    cases Option.some_inj.mp ha
    rw [continues, hclass]
    exact hnil b hb
  have hshort : ∀ b ∈ c :: used, isWordByte b = true := List.forall_mem_cons.mpr ⟨hc, hused⟩
  have hlong : ∀ b ∈ c :: (used ++ ((paramToString param).val ++ X).takeWhile isWordByte),
      isWordByte b = true := by
    refine List.forall_mem_cons.mpr ⟨hc, fun b hb => ?_⟩
    rcases List.mem_append.mp hb with hb | hb
    · exact hused b hb
    · exact List.mem_takeWhile_imp hb
  have hzero := zero_notMem_of_all (p := isWordByte) (by decide) hlong
  refine wordToken_ne line (zero_notMem_of_all (p := isWordByte) (by decide) hshort) hzero
    (by simpa using hrun) ?_
  -- the longer word holds a literal word behind `c`, or a digit
  have haround : ∀ lit ∈ literalWords, (∀ b ∈ lit, isWordByte b = true) →
      (paramToString param).val = lit →
        checkKeyword (CStr.ofBytes
          (c :: (used ++ ((paramToString param).val ++ X).takeWhile isWordByte))) =
            .identifier := by
    intro lit hlit hword hprinted
    refine checkKeyword_around (c :: used) (X.takeWhile isWordByte) hlit ?_
      (Or.inl (List.cons_ne_nil c used))
    rw [CStr.ofBytes_of_notMem hzero, hprinted, List.takeWhile_append_of_pos hword,
      List.cons_append]
  cases param with
  | null => exact haround _ (by decide) (List.all_eq_true.mp (by decide)) paramToString_null
  | bool value =>
      cases value with
      | true => exact haround _ (by decide) (List.all_eq_true.mp (by decide)) paramToString_true
      | false => exact haround _ (by decide) (List.all_eq_true.mp (by decide)) paramToString_false
  | int value =>
      obtain ⟨d, ds, hdecimal⟩ :=
        List.exists_cons_of_ne_nil (CStr.decimal_ne_nil value.toInt.natAbs)
      have hdigit : CStr.isDigit d = true :=
        CStr.isDigit_of_mem_decimal (hdecimal ▸ List.mem_cons_self)
      rw [paramToString_int, hdecimal] at hrun hzero ⊢
      by_cases hsign : value.toInt < 0
      · rw [if_pos hsign] at hrun
        exact absurd rfl hrun
      · rw [if_neg hsign] at hzero ⊢
        refine checkKeyword_digit (b := d) ?_ hdigit
        rw [CStr.ofBytes_of_notMem hzero]
        simp [isWordByte, hdigit]
  | string data =>
      rw [paramToString_string hfits] at hrun
      exact absurd rfl hrun
  | float printed => cases hfloat

/-- A number that runs on is not read as the number. -/
theorem number_runs_on {c : UInt8} {used X : List UInt8} (hclass : byteClass c = .digit)
    (hused : ∀ b ∈ used, isNumberByte b = true) (hends : ¬ EndsBefore [c] X) (line : Nat) :
    numberToken (c :: used) line ≠
      numberToken (c :: (used ++ X.takeWhile isNumberByte)) line := by
  have hc : isNumberByte c = true := isNumberByte_of_isDigit (isDigit_of_digit hclass)
  have hrun : X.takeWhile isNumberByte ≠ [] := by
    intro hnil
    rw [← ends_iff_takeWhile] at hnil
    refine hends fun a ha b hb => ?_
    cases Option.some_inj.mp ha
    rw [continues, hclass]
    exact hnil b hb
  have hshort : ∀ b ∈ c :: used, isNumberByte b = true := List.forall_mem_cons.mpr ⟨hc, hused⟩
  have hlong : ∀ b ∈ c :: (used ++ X.takeWhile isNumberByte), isNumberByte b = true := by
    refine List.forall_mem_cons.mpr ⟨hc, fun b hb => ?_⟩
    rcases List.mem_append.mp hb with hb | hb
    · exact hused b hb
    · exact List.mem_takeWhile_imp hb
  intro heq
  have hvalue := CStr.ofBytes_inj (zero_notMem_of_all (p := isNumberByte) (by decide) hshort)
    (zero_notMem_of_all (p := isNumberByte) (by decide) hlong)
    (Option.some_inj.mp (congrArg Token.value heq))
  exact hrun (by simpa using hvalue)

/-- A round whose token runs into what is filled in behind it reads another token. -/
theorem round_runs_on {ps : List Piece} {c : UInt8} {used : List UInt8}
    (hcut : Cut (.text c used :: ps)) {params : List Parameter}
    (hfloat : ∀ param ∈ params, param.isFloat = false) (hfits : ∀ param ∈ params, param.Fits)
    (hends : ¬ EndsBefore [c] (filledText ps params)) (line : Nat) (E : List Token) :
    tokensFrom line (c :: used ++ filledText ps params) ≠
      (nextToken line c used).token.toList ++ E := by
  obtain ⟨hround, hnext, hcut⟩ := hcut
  obtain ⟨hwordRun, hnumberRun⟩ := hround.run
  have halone := hround line [] (fun _ _ => rfl) (by simp)
  rw [List.append_nil] at halone
  cases hclass : byteClass c with
  | digit =>
      have hused := hnumberRun hclass
      have htoken : (nextToken line c used).token = some (numberToken (c :: used) line) := by
        rw [Sql.nextToken, hclass]
        change some (numberToken (c :: used.takeWhile isNumberByte) line) = _
        rw [List.takeWhile_eq_self_iff.mpr hused]
      rw [List.cons_append, tokensFrom_number hclass hused, htoken]
      exact fun heq => number_runs_on hclass hused hends line (List.cons.inj heq).1.symm
  | word =>
      have hused := hwordRun hclass
      have htoken : (nextToken line c used).token = some (wordToken (c :: used) line) := by
        rw [Sql.nextToken, hclass]
        change some (wordToken (c :: used.takeWhile isWordByte) line) = _
        rw [List.takeWhile_eq_self_iff.mpr hused]
      rw [List.cons_append, tokensFrom_word hclass hused, htoken]
      cases ps with
      | nil => exact absurd (fun _ _ _ hb => by simp [filledText] at hb) hends
      | cons piece ps =>
          cases piece with
          | text c' used' =>
              -- the next round starts where this one could not go on
              refine absurd (fun a ha b hb => ?_) hends
              cases Option.some_inj.mp ha
              exact hnext b hb
          | marker =>
              cases params with
              | nil =>
                  refine absurd (fun a ha b hb => ?_) hends
                  cases Option.some_inj.mp ha
                  exact hnext b hb
              | cons param params =>
                  exact fun heq => word_runs_on (hfloat param List.mem_cons_self)
                    (hfits param List.mem_cons_self) hclass hused hends line
                    (List.cons.inj heq).1.symm
  | space | symbol _ | quote | unexpected =>
      refine absurd (fun a ha b hb => ?_) hends
      cases Option.some_inj.mp ha
      rw [continues, hclass]

/-- The filled text reads as expected exactly when the parameters are separate. -/
theorem expectedTokens_iff {ps : List Piece} (hcut : Cut ps)
    (hzero : 0 ∉ ps.flatMap Piece.bytes) {params : List Parameter}
    (hfloat : ∀ param ∈ params, param.isFloat = false) (hfits : ∀ param ∈ params, param.Fits)
    (line : Nat) :
    expectedTokens line ps params = some (tokensFrom line (filledText ps params)) ↔
      Separate ps params := by
  induction ps generalizing params line with
  | nil =>
      cases params with
      | nil => simp [expectedTokens, Separate, filledText, Sql.tokensFrom, lex]
      | cons param params => simp [expectedTokens, Separate]
  | cons piece ps ih =>
      have hrest : 0 ∉ ps.flatMap Piece.bytes := by
        rw [List.flatMap_cons, List.mem_append, not_or] at hzero
        exact hzero.2
      cases piece with
      | marker =>
          cases params with
          | nil => simp [expectedTokens, Separate]
          | cons param params =>
              have hlit := tokensFrom_literal (hfloat param List.mem_cons_self)
                (hfits param List.mem_cons_self) line (zero_notMem_filledText hrest params)
              have hih := ih hcut hrest (fun q hq => hfloat q (List.mem_cons_of_mem param hq))
                (fun q hq => hfits q (List.mem_cons_of_mem param hq)) line
              simp only [expectedTokens, filledText, Separate, Option.map_eq_some_iff]
              constructor
              · rintro ⟨E, hE, htokens⟩
                obtain ⟨hplain, hends, hnext⟩ := (hlit E).mp htokens.symm
                exact ⟨hplain, hends, hih.mp (hnext ▸ hE)⟩
              · rintro ⟨hplain, hends, hseparate⟩
                exact ⟨_, hih.mpr hseparate, ((hlit _).mpr ⟨hplain, hends, rfl⟩).symm⟩
      | text c used =>
          have hih := ih hcut.2.2 hrest hfloat hfits (nextToken line c used).line
          simp only [expectedTokens, filledText, Separate, Option.map_eq_some_iff]
          by_cases hends : EndsBefore [c] (filledText ps params)
          · have hround := hcut.1.tokensFrom line (X := filledText ps params)
              (fun hps => by rw [hps, filledText]) (hends c rfl)
            rw [hround]
            constructor
            · rintro ⟨E, hE, htokens⟩
              exact ⟨hends, hih.mp (List.append_cancel_left htokens ▸ hE)⟩
            · rintro ⟨_, hseparate⟩
              exact ⟨_, hih.mpr hseparate, rfl⟩
          · constructor
            · rintro ⟨E, _, htokens⟩
              exact absurd htokens.symm (round_runs_on hcut hfloat hfits hends line E)
            · rintro ⟨hyes, _⟩
              exact absurd hyes hends

/-! ## The substituted statement -/

theorem le_of_mem_markerPositions {ps : List Piece} {pos m : Nat}
    (hm : m ∈ markerPositions pos ps) : pos ≤ m := by
  induction ps generalizing pos with
  | nil => cases hm
  | cons piece ps ih =>
      cases piece with
      | marker =>
          rcases List.mem_cons.mp hm with rfl | hm
          · exact Nat.le_refl _
          · exact Nat.le_of_succ_le (ih hm)
      | text c used => exact Nat.le_of_add_right_le (ih hm)

/-- Text in front of all positions is copied. -/
theorem substituteFrom_append {positions : List Nat} {params : List Parameter}
    (text rest : List UInt8) (pos : Nat) (hpositions : ∀ m ∈ positions, pos + text.length ≤ m) :
    substituteFrom pos positions params (text ++ rest) =
      text ++ substituteFrom (pos + text.length) positions params rest := by
  induction text generalizing pos with
  | nil => rfl
  | cons c text ih =>
      have hnext : substituteFrom pos positions params (c :: (text ++ rest)) =
          c :: substituteFrom (pos + 1) positions params (text ++ rest) := by
        match positions, params with
        | [], _ => rw [substituteFrom]; simp
        | position :: positions, [] => rw [substituteFrom]; simp
        | position :: positions, param :: params =>
            have hne : pos ≠ position := by
              have hle := hpositions position List.mem_cons_self
              rw [List.length_cons] at hle
              omega
            rw [substituteFrom, if_neg hne]
      have hlen : pos + (c :: text).length = pos + 1 + text.length := by
        rw [List.length_cons]
        omega
      rw [List.cons_append, hnext, ih (pos + 1) (fun m hm => hlen ▸ hpositions m hm), hlen,
        List.cons_append]

/-- Substituting at the markers of the lexer fills the pieces. -/
theorem substituteFrom_markerPositions {ps : List Piece} {params : List Parameter} (pos : Nat)
    (hlen : params.length = (markerPositions pos ps).length) :
    substituteFrom pos (markerPositions pos ps) params (ps.flatMap Piece.bytes) =
      filledText ps params := by
  induction ps generalizing params pos with
  | nil => simp [substituteFrom, filledText]
  | cons piece ps ih =>
      cases piece with
      | marker =>
          cases params with
          | nil => cases hlen
          | cons param params =>
              rw [markerPositions, List.flatMap_cons, Piece.bytes, List.singleton_append,
                substituteFrom, if_pos rfl, filledText, ih (pos + 1) (Nat.succ.inj hlen)]
      | text c used =>
          have hbehind : ∀ m ∈ markerPositions (pos + (used.length + 1)) ps,
              pos + (c :: used).length ≤ m := fun m hm => le_of_mem_markerPositions hm
          rw [markerPositions, List.flatMap_cons, Piece.bytes,
            substituteFrom_append _ _ pos hbehind, filledText]
          exact congrArg (c :: used ++ ·) (ih (pos + (used.length + 1)) hlen)

/-- What `stmt_execute` produces when it accepts the parameters. -/
theorem stmtExecute_eq_some {store : SessionStatementStore} {name query : CStr}
    {params : List Parameter} (hexec : stmtExecute store name params = some query) :
    ∃ stmt, stmtFind store name = some stmt ∧ params.length = stmt.paramPositions.length ∧
      query = substituteParameters stmt.queryTemplate stmt.paramPositions params := by
  unfold stmtExecute at hexec
  cases hfind : stmtFind store name with
  | none => simp [hfind] at hexec
  | some stmt =>
      simp only [hfind] at hexec
      split at hexec
      · cases hexec
      · next hlen =>
          split at hexec
          · cases hexec
          · exact ⟨stmt, rfl, not_not.mp hlen, (Option.some_inj.mp hexec).symm⟩

/-- Where the scan agrees with the lexer on the markers, the text produced is the filled one. -/
theorem substituteParameters_val {template : CStr} (hagree : MarkersAgree template)
    {params : List Parameter} (hlen : params.length = (findParameters template).length) :
    (substituteParameters template (findParameters template) params).val =
      filledText (pieces template.val) params := by
  have hbytes := pieces_bytes template.val
  rw [hagree] at hlen
  have hfilled := substituteFrom_markerPositions 0 hlen
  rw [hbytes] at hfilled
  have hzero : 0 ∉ (pieces template.val).flatMap Piece.bytes := by
    rw [hbytes]
    exact template.property
  rw [substituteParameters, hagree, hfilled]
  exact CStr.ofBytes_of_notMem (zero_notMem_filledText hzero params)

theorem Separate.plain {ps : List Piece} {params : List Parameter}
    (hseparate : Separate ps params) :
    ∀ param ∈ params, param.Plain := by
  induction ps generalizing params with
  | nil =>
      intro param hmem
      rw [show params = [] from hseparate] at hmem
      cases hmem
  | cons piece ps ih =>
      cases piece with
      | marker =>
          cases params with
          | nil => cases hseparate
          | cons first params =>
              obtain ⟨hplain, _, hseparate⟩ := hseparate
              exact List.forall_mem_cons.mpr ⟨hplain, ih hseparate⟩
      | text c used => exact ih hseparate.2

theorem Parameter.Plain.fits {param : Parameter} (hplain : param.Plain) : param.Fits := by
  cases param with
  | string data => exact hplain.1
  | _ => trivial

/-- An accepted execution reads back when its template and parameters are faithful; and where the
scan finds the markers of the lexer and no string is cut off, only then. -/
theorem stmtExecute_readsBack {store : SessionStatementStore} {name query : CStr}
    {params : List Parameter} {stmt : PreparedStatement}
    (hfind : stmtFind store name = some stmt) (hfloat : ∀ param ∈ params, param.isFloat = false)
    (hexec : stmtExecute store name params = some query) :
    (Faithful stmt.queryTemplate params → ReadsBack stmt.queryTemplate params query) ∧
      (MarkersAgree stmt.queryTemplate → (∀ param ∈ params, param.Fits) →
        ReadsBack stmt.queryTemplate params query → Faithful stmt.queryTemplate params) := by
  obtain ⟨stmt', hfind', hlen, rfl⟩ := stmtExecute_eq_some hexec
  cases Option.some_inj.mp (hfind.symm.trans hfind')
  rw [stmt.positions_eq] at hlen ⊢
  have hzero : 0 ∉ (pieces stmt.queryTemplate.val).flatMap Piece.bytes := by
    rw [pieces_bytes]
    exact stmt.queryTemplate.property
  have hiff : MarkersAgree stmt.queryTemplate → (∀ param ∈ params, param.Fits) →
      (ReadsBack stmt.queryTemplate params
          (substituteParameters stmt.queryTemplate (findParameters stmt.queryTemplate) params) ↔
        Separate (pieces stmt.queryTemplate.val) params) := by
    intro hagree hfits
    unfold ReadsBack
    rw [tokenize_eq, substituteParameters_val hagree hlen]
    exact expectedTokens_iff (cut_pieces _) hzero hfloat hfits 1
  constructor
  · rintro ⟨hagree, hseparate⟩
    exact (hiff hagree fun param hp => (hseparate.plain param hp).fits).mpr hseparate
  · intro hagree hfits hreads
    exact ⟨hagree, (hiff hagree hfits).mp hreads⟩

/-- The store with one statement prepared in it. -/
def preparedStore (query : String) : SessionStatementStore :=
  [{ name := CStr.lit "s"
     queryTemplate := CStr.lit query
     paramPositions := findParameters (CStr.lit query)
     positions_eq := rfl }]

theorem stmtExecute_readsBack_lookup :
    ∃ query, stmtExecute (preparedStore "SELECT * FROM t JAHAN id = ? AUR name = ?;")
        (CStr.lit "s") [.int 5, .string (CStr.lit "ann lee")] = some query ∧
      ReadsBack (CStr.lit "SELECT * FROM t JAHAN id = ? AUR name = ?;")
        [.int 5, .string (CStr.lit "ann lee")] query := by
  obtain ⟨query, hexec⟩ := Option.isSome_iff_exists.mp
    (show (stmtExecute (preparedStore "SELECT * FROM t JAHAN id = ? AUR name = ?;")
      (CStr.lit "s") [.int 5, .string (CStr.lit "ann lee")]).isSome = true by decide)
  exact ⟨query, hexec, (stmtExecute_readsBack rfl (by decide) hexec).1 (by decide +kernel)⟩

/-- A quote in a string adds conditions to the statement, and a negative number loses its sign. -/
theorem substitution_injects :
    (stmtExecute (preparedStore "SELECT * FROM t JAHAN name = ?;") (CStr.lit "s")
        [.string (CStr.lit "x' YA id > 0 YA name = 'x")] =
      some (CStr.lit "SELECT * FROM t JAHAN name = 'x' YA id > 0 YA name = 'x';") ∧
      ¬ ReadsBack (CStr.lit "SELECT * FROM t JAHAN name = ?;")
        [.string (CStr.lit "x' YA id > 0 YA name = 'x")]
        (CStr.lit "SELECT * FROM t JAHAN name = 'x' YA id > 0 YA name = 'x';")) ∧
    stmtExecute (preparedStore "SELECT * FROM t JAHAN n = ?;") (CStr.lit "s") [.int (-5)] =
      some (CStr.lit "SELECT * FROM t JAHAN n = -5;") ∧
      ¬ ReadsBack (CStr.lit "SELECT * FROM t JAHAN n = ?;") [.int (-5)]
        (CStr.lit "SELECT * FROM t JAHAN n = -5;") := by
  refine ⟨⟨by decide, by decide +kernel⟩, by decide, by decide +kernel⟩

end Server
end InventixDB
