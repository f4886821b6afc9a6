import InventixDB.Server.Prepared
import Mathlib.Data.List.DropRight

/-!
# Normalization — the normal form of a query

One pass writes the query in upper case with single blanks and a placeholder for each literal.
What stands between a string literal and the next quote of its kind is lost, and a placeholder
is also what two bytes of the query itself can look like.
-/

namespace InventixDB
namespace Server

open Storage
open Sql

/-! ## The loop -/

def isQuote (c : UInt8) : Bool :=
  c == 39 || c == 34

/-- The inner loop of a string literal: what follows its closing quote. -/
def skipString (quoteChar : UInt8) : Bool → List UInt8 → List UInt8
  | _, [] => []
  | escaped, c :: rest =>
      if c == quoteChar && !escaped then rest else skipString quoteChar (c == 92) rest

theorem skipString_suffix (quoteChar : UInt8) (escaped : Bool) (bs : List UInt8) :
    skipString quoteChar escaped bs <:+ bs := by
  induction bs generalizing escaped with
  | nil => exact List.suffix_refl []
  | cons c rest ih =>
      unfold skipString
      split
      · exact List.suffix_cons c rest
      · exact (ih _).trans (List.suffix_cons c rest)

/-- What the inner loop of a number literal passes over. -/
def isNumberPart (c : UInt8) : Bool :=
  CStr.isDigit c || c == 46 || c == 45

/-- The variables of `stmt_normalize_query`; `j` is the length of what is written. -/
structure Normalizer where
  normalized : List UInt8 := []
  inString : Bool := false
  lastSpace : Bool := false
  quoteChar : UInt8 := 0

def Normalizer.write (s : Normalizer) (bytes : List UInt8) : Normalizer :=
  { s with normalized := s.normalized ++ bytes }

/-- The loop of `stmt_normalize_query`; `escaped` says that the byte before is a backslash. -/
def Normalizer.scan (s : Normalizer) (escaped : Bool) : List UInt8 → Normalizer
  | [] => s
  | c :: rest =>
      if isQuote c && !escaped && !s.inString then
        -- `in_string` stays set behind the literal
        ({ s with inString := true, quoteChar := c }.write [63, 83]).scan false
          (skipString c false rest)
      else if isQuote c && !escaped && c == s.quoteChar then
        { s with inString := false }.scan false rest
      else if s.inString then s.scan (c == 92) rest
      else if CStr.isDigit c || c == 45 && rest.head?.any CStr.isDigit then
        (s.write [63, 78]).scan false (rest.dropWhile isNumberPart)
      else if CStr.isSpace c then
        if !s.lastSpace && !s.normalized.isEmpty then
          { s with lastSpace := true, normalized := s.normalized ++ [32] }.scan false rest
        else s.scan false rest
      else
        { s with lastSpace := false, normalized := s.normalized ++ [upperByte c] }.scan
          (c == 92) rest
termination_by bs => bs.length
decreasing_by
  all_goals simp only [List.length_cons]
  · exact Nat.lt_succ_of_le (skipString_suffix _ _ _).length_le
  all_goals first
    | exact Nat.lt_succ_self _
    | exact Nat.lt_succ_of_le (List.dropWhile_suffix _).length_le

/-- The text in the buffer when the loop ends. -/
def scanned (query : CStr) : List UInt8 :=
  (({} : Normalizer).scan false query.val).normalized

/-- `stmt_normalize_query` -/
def stmtNormalizeQuery (query : CStr) : CStr :=
  CStr.ofBytes ((scanned query).rdropWhile (· == 32))

/-- How far into its buffer `stmt_normalize_query` writes, the NUL included. -/
def bytesWritten (query : CStr) : Nat :=
  max (scanned query).length (((scanned query).rdropWhile (· == 32)).length + 1)

/-! ## What a query says -/

inductive QueryPart
  | string
  | number
  | byte (c : UInt8)
  deriving DecidableEq

/-- A query without the values of its literals, letter case and white space. -/
def shape (escaped inWord : Bool) : List UInt8 → List QueryPart
  | [] => []
  | c :: rest =>
      if isQuote c && !escaped then .string :: shape false false (skipString c false rest)
      else if CStr.isDigit c && !inWord then
        .number :: shape false false (rest.dropWhile isNumberByte)
      else if CStr.isSpace c then shape false false rest
      else .byte (upperByte c) :: shape (c == 92) (isWordByte c) rest
termination_by bs => bs.length
decreasing_by
  all_goals simp only [List.length_cons]
  · exact Nat.lt_succ_of_le (skipString_suffix _ _ _).length_le
  all_goals first
    | exact Nat.lt_succ_self _
    | exact Nat.lt_succ_of_le (List.dropWhile_suffix _).length_le

/-- The queries differ only in literal values, letter case outside of them and white space. -/
def Alike (query other : CStr) : Prop :=
  shape false false query.val = shape false false other.val

/-- The normal form fits, and only queries like this one have it. -/
def SoundlyNormalized (query : CStr) : Prop :=
  bytesWritten query ≤ query.length + 1 ∧
    ∀ other, stmtNormalizeQuery other = stmtNormalizeQuery query → Alike query other

/-! ## Single bytes -/

theorem isAlpha_iff (c : UInt8) :
    isAlpha c = true ↔
      65 ≤ c.toNat ∧ c.toNat ≤ 90 ∨ 97 ≤ c.toNat ∧ c.toNat ≤ 122 := by
  simp [isAlpha, UInt8.le_iff_toNat_le]

/-- A small letter, or a byte that stays as it is. -/
theorem toNat_upperByte (c : UInt8) :
    97 ≤ c.toNat ∧ c.toNat ≤ 122 ∧ (upperByte c).toNat = c.toNat - 32 ∨ upperByte c = c := by
  unfold upperByte
  split
  next hlower =>
      simp only [Bool.and_eq_true, decide_eq_true_eq, UInt8.le_iff_toNat_le] at hlower
      have hlow : 97 ≤ c.toNat := hlower.1
      exact .inl ⟨hlow, hlower.2, UInt8.toNat_sub_of_le _ _
        (UInt8.le_iff_toNat_le.mpr (Nat.le_trans (by decide) hlow))⟩
  next => exact .inr rfl

theorem upperByte_of_alpha {c : UInt8} (hc : upperByte c ≠ c) :
    isAlpha c = true ∧ isAlpha (upperByte c) = true := by
  obtain ⟨hlow, hhigh, hupper⟩ := (toNat_upperByte c).resolve_right hc
  rw [isAlpha_iff, isAlpha_iff]
  omega

/-- A test no letter passes does not depend on the case. -/
theorem test_upperByte {p : UInt8 → Bool} (hp : ∀ d, isAlpha d = true → p d = false) (c : UInt8) :
    p (upperByte c) = p c := by
  by_cases hc : upperByte c = c
  · rw [hc]
  · obtain ⟨halpha, hupper⟩ := upperByte_of_alpha hc
    rw [hp _ halpha, hp _ hupper]

theorem isDigit_upperByte (c : UInt8) : CStr.isDigit (upperByte c) = CStr.isDigit c := by
  refine test_upperByte (fun d hd => ?_) c
  rw [isAlpha_iff] at hd
  by_contra hdigit
  simp only [CStr.isDigit, Bool.not_eq_false, Bool.and_eq_true, decide_eq_true_eq,
    UInt8.le_iff_toNat_le] at hdigit
  have hhigh : d.toNat ≤ 57 := hdigit.2
  omega

theorem isSpace_upperByte (c : UInt8) : CStr.isSpace (upperByte c) = CStr.isSpace c := by
  refine test_upperByte (fun d hd => ?_) c
  rw [isAlpha_iff] at hd
  by_contra hspace
  simp only [CStr.isSpace, Bool.not_eq_false, Bool.or_eq_true, Bool.and_eq_true, beq_iff_eq,
    decide_eq_true_eq, UInt8.le_iff_toNat_le] at hspace
  rcases hspace with rfl | ⟨_, hhigh⟩
  · exact absurd hd (by decide)
  · have hhigh : d.toNat ≤ 13 := hhigh
    omega

theorem beq_upperByte {d : UInt8} (hd : isAlpha d = false) (c : UInt8) :
    (upperByte c == d) = (c == d) := by
  refine test_upperByte (p := (· == d)) (fun b hb => ?_) c
  rw [beq_eq_false_iff_ne]
  rintro rfl
  exact absurd hb (by rw [hd]; decide)

theorem isQuote_upperByte (c : UInt8) : isQuote (upperByte c) = isQuote c := by
  rw [isQuote, isQuote, beq_upperByte (by decide), beq_upperByte (by decide)]

theorem upperByte_upperByte (c : UInt8) : upperByte (upperByte c) = upperByte c := by
  rcases toNat_upperByte c with ⟨_, _, hupper⟩ | hsame
  · refine (toNat_upperByte (upperByte c)).resolve_left ?_
    omega
  · rw [hsame, hsame]

theorem not_slash_of_space {c : UInt8} (hspace : CStr.isSpace c = true) : (c == 92) = false := by
  rw [beq_eq_false_iff_ne]
  rintro rfl
  exact absurd hspace (by decide)

theorem digit_of_space {c : UInt8} (hspace : CStr.isSpace c = true) : CStr.isDigit c = false := by
  by_contra hdigit
  simp only [CStr.isDigit, CStr.isSpace, Bool.not_eq_false, Bool.or_eq_true, Bool.and_eq_true,
    beq_iff_eq, decide_eq_true_eq, UInt8.le_iff_toNat_le] at hdigit hspace
  have hlow : 48 ≤ c.toNat := hdigit.1
  rcases hspace with rfl | ⟨_, hhigh⟩
  · exact absurd hlow (by decide)
  · have hhigh : c.toNat ≤ 13 := hhigh
    omega

theorem upperByte_ne_blank {c : UInt8} (hspace : CStr.isSpace c = false) : upperByte c ≠ 32 := by
  intro heq
  rw [← isSpace_upperByte, heq] at hspace
  exact absurd hspace (by decide)

/-! ## The last byte -/

/-- Whether the text, or what stands before it, ends in this byte. -/
def endsIn (d : UInt8) (start : Bool) (w : List UInt8) : Bool :=
  w.foldl (fun _ c => c == d) start

@[simp] theorem endsIn_nil (d : UInt8) (start : Bool) : endsIn d start [] = start := rfl

@[simp] theorem endsIn_cons (d : UInt8) (start : Bool) (c : UInt8) (w : List UInt8) :
    endsIn d start (c :: w) = endsIn d (c == d) w := rfl

theorem endsIn_append (d : UInt8) (start : Bool) (u v : List UInt8) :
    endsIn d start (u ++ v) = endsIn d (endsIn d start u) v :=
  List.foldl_append

theorem endsIn_of_ne_nil {w : List UInt8} (hw : w ≠ []) (d : UInt8) (start : Bool) :
    endsIn d start w = endsIn d false w := by
  obtain ⟨c, u, rfl⟩ := List.exists_cons_of_ne_nil hw
  rfl

theorem endsIn_iff (d : UInt8) (w : List UInt8) :
    endsIn d false w = true ↔ w.getLast? = some d := by
  rcases w.eq_nil_or_concat with rfl | ⟨u, c, rfl⟩
  · simp
  · simp [endsIn_append]

/-! ## Texts the loop leaves as they are -/

/-- A byte that is written as it is after a text with such an end. -/
structure Settles (blank escaped : Bool) (c : UInt8) : Prop where
  digit : CStr.isDigit c = false
  quote : isQuote c = true → escaped = true
  space : CStr.isSpace c = true → c = 32 ∧ blank = false
  upper : upperByte c = c

def Settled (blank escaped : Bool) : List UInt8 → Prop
  | [] => True
  | c :: w => Settles blank escaped c ∧ Settled (c == 32) (c == 92) w

theorem settled_append {blank escaped : Bool} {u v : List UInt8} :
    Settled blank escaped (u ++ v) ↔
      Settled blank escaped u ∧ Settled (endsIn 32 blank u) (endsIn 92 escaped u) v := by
  induction u generalizing blank escaped with
  | nil => exact (true_and _).symm.to_iff
  | cons c u ih =>
      rw [List.cons_append, Settled, ih, Settled, and_assoc]
      rfl

/-- Only a blank at its start depends on a blank before. -/
theorem Settled.of_head {blank blank' escaped : Bool} {w : List UInt8}
    (hw : Settled blank escaped w) (hhead : w.head? = some 32 → blank' = false) :
    Settled blank' escaped w := by
  cases w with
  | nil => trivial
  | cons c w =>
      refine ⟨⟨hw.1.digit, hw.1.quote, fun hspace => ?_, hw.1.upper⟩, hw.2⟩
      have hc := (hw.1.space hspace).1
      exact ⟨hc, hhead (congrArg some hc)⟩

theorem settled_placeholder (blank escaped : Bool) {kind : UInt8} (hkind : kind = 78 ∨ kind = 83) :
    Settled blank escaped [63, kind] := by
  rcases hkind with rfl | rfl
  all_goals exact
    ⟨⟨by decide, fun h => absurd h (by decide), fun h => absurd h (by decide), by decide⟩,
      ⟨by decide, fun h => absurd h (by decide), fun h => absurd h (by decide), by decide⟩, trivial⟩

/-- A settled text is written as it is. -/
theorem Normalizer.scan_settled {s : Normalizer} {blank escaped : Bool} {w rest : List UInt8}
    (hw : Settled blank escaped w) (hout : s.inString = false)
    (hblank : blank = false → s.lastSpace = false ∧ s.normalized ≠ [])
    (hdash : endsIn 45 false w = true → rest.head?.any CStr.isDigit = false) :
    s.scan escaped (w ++ rest) =
      { s with normalized := s.normalized ++ w, lastSpace := endsIn 32 s.lastSpace w }.scan
        (endsIn 92 escaped w) rest := by
  induction w generalizing s blank escaped with
  | nil =>
      simp
  | cons c w ih =>
      obtain ⟨hc, hw⟩ := hw
      have hopen : (isQuote c && !escaped) = false := by
        cases hquote : isQuote c with
        | false => rfl
        | true => rw [hc.quote hquote]; rfl
      have hnumber : (c == 45 && (w ++ rest).head?.any CStr.isDigit) = false := by
        cases w with
        | nil =>
            cases hbeq : c == 45 with
            | false => rfl
            | true => exact hdash (by simpa using hbeq)
        | cons d w => simp [hw.1.digit]
      rw [List.cons_append, Normalizer.scan]
      simp only [hopen, hnumber, hout, hc.digit, Bool.false_and, Bool.or_self, Bool.false_eq_true,
        if_false, endsIn_cons]
      have hdash' : endsIn 45 false w = true → rest.head?.any CStr.isDigit = false := by
        intro hend
        refine hdash ?_
        cases w with
        | nil => cases hend
        | cons d w => exact hend
      by_cases hspace : CStr.isSpace c = true
      · obtain ⟨rfl, hb⟩ := hc.space hspace
        obtain ⟨hlast, hne⟩ := hblank hb
        have hwrite : (!s.lastSpace && !s.normalized.isEmpty) = true := by
          simpa [hlast] using hne
        have hnext := ih (s := { s with lastSpace := true, normalized := s.normalized ++ [32] })
          hw hout (fun h => absurd h (by decide)) hdash'
        rw [if_pos hspace, if_pos hwrite]
        simpa [hout] using hnext
      · have hc32 : (c == 32) = false := by
          rw [beq_eq_false_iff_ne]
          rintro rfl
          exact hspace (by decide)
        have hnext := ih (s := { s with lastSpace := false, normalized := s.normalized ++ [c] })
          hw hout (fun _ => ⟨rfl, by simp⟩) hdash'
        rw [if_neg hspace, hc.upper]
        simpa [hout, hc32] using hnext

/-! ## Queries without a literal -/

/-- No digit, and no quote but behind a backslash. -/
def Plain (escaped : Bool) : List UInt8 → Bool
  | [] => true
  | c :: rest => !CStr.isDigit c && (!isQuote c || escaped) && Plain (c == 92) rest

/-- What is left of a plain text: upper case, one blank for each gap. -/
def collapseFrom (gap : Bool) : List UInt8 → List UInt8
  | [] => []
  | c :: rest =>
      if CStr.isSpace c then collapseFrom true rest
      else (if gap then [32] else []) ++ upperByte c :: collapseFrom false rest

/-- The query in upper case, with single blanks and none at its ends. -/
def collapse (query : List UInt8) : List UInt8 :=
  collapseFrom false (query.dropWhile CStr.isSpace)

theorem plain_cons {escaped : Bool} {c : UInt8} {rest : List UInt8} :
    Plain escaped (c :: rest) = true ↔
      CStr.isDigit c = false ∧ (isQuote c && !escaped) = false ∧ Plain (c == 92) rest = true := by
  rw [Plain]
  cases CStr.isDigit c <;> cases isQuote c <;> cases escaped <;> simp

theorem digit_of_plain {escaped : Bool} {q : List UInt8} (hq : Plain escaped q = true) {c : UInt8}
    (hc : c ∈ q) : CStr.isDigit c = false := by
  induction q generalizing escaped with
  | nil => cases hc
  | cons d q ih =>
      obtain ⟨hdigit, _, hq⟩ := plain_cons.mp hq
      rcases List.mem_cons.mp hc with rfl | hc
      · exact hdigit
      · exact ih hq hc

theorem plain_append {escaped : Bool} {u v : List UInt8} :
    Plain escaped (u ++ v) = (Plain escaped u && Plain (endsIn 92 escaped u) v) := by
  induction u generalizing escaped with
  | nil => rfl
  | cons c u ih =>
      rw [List.cons_append, Plain, ih, Plain, endsIn_cons, Bool.and_assoc, Bool.and_assoc,
        Bool.and_assoc]

theorem plain_head {escaped : Bool} {rest : List UInt8} (hrest : Plain escaped rest = true) :
    rest.head?.any CStr.isDigit = false := by
  cases rest with
  | nil => rfl
  | cons d rest => exact (plain_cons.mp hrest).1

theorem Settled.plain {blank escaped : Bool} {w : List UInt8} (hw : Settled blank escaped w) :
    Plain escaped w = true := by
  induction w generalizing blank escaped with
  | nil => rfl
  | cons c w ih =>
      refine plain_cons.mpr ⟨hw.1.digit, ?_, ih hw.2⟩
      cases hquote : isQuote c with
      | false => rfl
      | true => rw [hw.1.quote hquote]; rfl

theorem settles_upperByte {blank escaped : Bool} {c : UInt8} (hdigit : CStr.isDigit c = false)
    (hquote : isQuote c = true → escaped = true) (hspace : CStr.isSpace c = false) :
    Settles blank escaped (upperByte c) where
  digit := by rwa [isDigit_upperByte]
  quote := by rwa [isQuote_upperByte]
  space := by
    rw [isSpace_upperByte, hspace]
    exact fun h => absurd h Bool.false_ne_true
  upper := upperByte_upperByte c

/-- `escaped` is about the byte before in the query, `written` about the last one written. -/
theorem settled_collapseFrom {gap escaped written : Bool} {q : List UInt8}
    (hq : Plain escaped q = true) (hgap : gap = true → escaped = false)
    (hwritten : gap = false → written = escaped) :
    Settled false written (collapseFrom gap q) := by
  induction q generalizing gap escaped written with
  | nil => trivial
  | cons c q ih =>
      obtain ⟨hdigit, hopen, hq⟩ := plain_cons.mp hq
      have hquote : isQuote c = true → escaped = true := by
        intro hc
        simpa [hc] using hopen
      rw [collapseFrom]
      by_cases hspace : CStr.isSpace c = true
      · rw [not_slash_of_space hspace] at hq
        rw [if_pos hspace]
        exact ih hq (fun _ => rfl) (fun h => absurd h (by decide))
      · have hspace : CStr.isSpace c = false := Bool.eq_false_iff.mpr hspace
        have h32 : (upperByte c == 32) = false :=
          beq_eq_false_iff_ne.mpr (upperByte_ne_blank hspace)
        have hrest : Settled (upperByte c == 32) (upperByte c == 92) (collapseFrom false q) := by
          rw [h32, beq_upperByte (by decide)]
          exact ih hq (fun h => absurd h (by decide)) (fun _ => rfl)
        rw [if_neg (by rw [hspace]; decide)]
        cases gap with
        | false =>
            rw [hwritten rfl]
            exact ⟨settles_upperByte hdigit hquote hspace, hrest⟩
        | true =>
            have hblank : Settles false written 32 :=
              ⟨by decide, fun h => absurd h (by decide), fun _ => ⟨rfl, rfl⟩, by decide⟩
            refine ⟨hblank, settles_upperByte hdigit (fun hc => ?_) hspace, hrest⟩
            exact absurd (hquote hc) (by rw [hgap rfl]; decide)

theorem settled_collapse {query : List UInt8} (hquery : Plain false query = true) :
    Settled true false (collapse query) := by
  unfold collapse
  have hrest : Plain false (query.dropWhile CStr.isSpace) = true := by
    induction query with
    | nil => rfl
    | cons c rest ih =>
        rw [List.dropWhile_cons]
        split
        next hspace =>
            refine ih ?_
            have hplain := (plain_cons.mp hquery).2.2
            rwa [not_slash_of_space hspace] at hplain
        next => exact hquery
  refine (settled_collapseFrom hrest (fun _ => rfl) (fun _ => rfl)).of_head fun hhead => ?_
  -- the text does not start with white space
  cases hdrop : query.dropWhile CStr.isSpace with
  | nil => rw [hdrop] at hhead; cases hhead
  | cons c rest =>
      have hc : CStr.isSpace c = false := by
        have hnot := List.head_dropWhile_not CStr.isSpace (l := query) (by rw [hdrop]; simp)
        simpa [hdrop] using hnot
      rw [hdrop, collapseFrom, if_neg (by rw [hc]; decide)] at hhead
      have h32 : upperByte c = 32 := Option.some.inj hhead
      rw [← isSpace_upperByte, h32] at hc
      exact absurd hc (by decide)

/-! ## What the loop makes of them -/

theorem scan_plain {base : List UInt8} {gap escaped : Bool} {quoteChar : UInt8} {q : List UInt8}
    (hq : Plain escaped q = true) (hbase : base ≠ []) (hlast : base.getLast? ≠ some 32) :
    ((⟨base ++ (if gap then [32] else []), false, gap, quoteChar⟩ : Normalizer).scan
        escaped q).normalized.rdropWhile (· == 32) = base ++ collapseFrom gap q := by
  induction q generalizing base gap escaped with
  | nil =>
      rw [Normalizer.scan, collapseFrom, List.append_nil]
      have hself : base.rdropWhile (· == 32) = base := by
        rw [List.rdropWhile_eq_self_iff]
        intro hne heq
        exact hlast ((List.getLast?_eq_getLast_of_ne_nil hne).trans
          (congrArg some (by simpa using heq)))
      cases gap with
      | false => simpa using hself
      | true => rw [if_pos rfl, List.rdropWhile_concat_pos _ _ _ (by decide), hself]
  | cons c q ih =>
      obtain ⟨hdigit, hopen, hq⟩ := plain_cons.mp hq
      have hdash : (c == 45 && q.head?.any CStr.isDigit) = false := by
        rw [plain_head hq, Bool.and_false]
      rw [Normalizer.scan, collapseFrom]
      simp only [hopen, hdigit, hdash, Bool.false_and, Bool.or_self, Bool.false_eq_true, if_false]
      by_cases hspace : CStr.isSpace c = true
      · rw [not_slash_of_space hspace] at hq
        rw [if_pos hspace, if_pos hspace]
        cases gap with
        | false => simpa [hbase] using @ih base true false hq hbase hlast
        | true => exact ih hq hbase hlast
      · have hspace : CStr.isSpace c = false := Bool.eq_false_iff.mpr hspace
        have hnext := @ih (base ++ (if gap then [32] else []) ++ [upperByte c]) false (c == 92)
          hq (by simp) (by simp [upperByte_ne_blank hspace])
        simp only [hspace, Bool.false_eq_true, if_false]
        simpa using hnext

/-- A plain query: the loop trims it, and leaves one blank for each gap. -/
theorem stmtNormalizeQuery_of_plain {query : CStr} (hquery : Plain false query.val = true) :
    (scanned query).rdropWhile (· == 32) = collapse query.val := by
  unfold scanned collapse
  generalize query.val = q at hquery
  induction q with
  | nil => simp [Normalizer.scan, collapseFrom]
  | cons c q ih =>
      obtain ⟨hdigit, hopen, hq⟩ := plain_cons.mp hquery
      have hdash : (c == 45 && q.head?.any CStr.isDigit) = false := by
        rw [plain_head hq, Bool.and_false]
      rw [Normalizer.scan, List.dropWhile_cons]
      simp only [hopen, hdigit, hdash, Bool.false_and, Bool.or_self, Bool.false_eq_true, if_false]
      by_cases hspace : CStr.isSpace c = true
      · rw [not_slash_of_space hspace] at hq
        simpa [hspace] using ih hq
      · have hspace : CStr.isSpace c = false := Bool.eq_false_iff.mpr hspace
        have hrest := @scan_plain [upperByte c] false (c == 92) 0 q hq (List.cons_ne_nil _ _)
          (by simp [upperByte_ne_blank hspace])
        simpa [hspace, collapseFrom] using hrest

theorem scan_plain_length {s : Normalizer} {escaped : Bool} {q : List UInt8}
    (hq : Plain escaped q = true) (hout : s.inString = false) :
    (s.scan escaped q).normalized.length ≤ s.normalized.length + q.length := by
  induction q generalizing s escaped with
  | nil => rw [Normalizer.scan]; exact Nat.le_refl _
  | cons c q ih =>
      obtain ⟨hdigit, hopen, hq⟩ := plain_cons.mp hq
      have hdash : (c == 45 && q.head?.any CStr.isDigit) = false := by
        rw [plain_head hq, Bool.and_false]
      rw [Normalizer.scan]
      simp only [hopen, hdigit, hdash, hout, Bool.false_and, Bool.or_self, Bool.false_eq_true,
        if_false, List.length_cons]
      by_cases hspace : CStr.isSpace c = true
      · rw [not_slash_of_space hspace] at hq
        rw [if_pos hspace]
        split
        · refine (ih hq rfl).trans ?_
          rw [List.length_append, List.length_singleton]
          omega
        · exact (ih hq hout).trans (by omega)
      · rw [if_neg hspace]
        refine (ih hq rfl).trans ?_
        rw [List.length_append, List.length_singleton]
        omega

/-! ## The normal form is one -/

/-- What the loop keeps. -/
structure Tidy (s : Normalizer) (escaped : Bool) : Prop where
  settled : Settled true false s.normalized
  blank : s.normalized.getLast? = some 32 → s.lastSpace = true
  slash : s.inString = false → escaped = true → s.normalized.getLast? = some 92

theorem settled_concat {blank escaped : Bool} {w : List UInt8} {c : UInt8}
    (hw : Settled blank escaped w)
    (hc : Settles (endsIn 32 blank w) (endsIn 92 escaped w) c) :
    Settled blank escaped (w ++ [c]) :=
  settled_append.mpr ⟨hw, hc, trivial⟩

theorem Tidy.write {s : Normalizer} {escaped : Bool} (hs : Tidy s escaped) {kind : UInt8}
    (hkind : kind = 78 ∨ kind = 83) : Tidy (s.write [63, kind]) false where
  settled := settled_append.mpr ⟨hs.settled, settled_placeholder _ _ hkind⟩
  blank := by
    intro hlast
    rcases hkind with rfl | rfl
    all_goals
      simp [Normalizer.write] at hlast
  slash := fun _ h => absurd h (by decide)

theorem Tidy.scan {s : Normalizer} {escaped : Bool} {q : List UInt8} (hs : Tidy s escaped) :
    ∃ escaped', Tidy (s.scan escaped q) escaped' := by
  induction s, escaped, q using Normalizer.scan.induct with
  | case1 s escaped =>
      rw [Normalizer.scan]
      exact ⟨escaped, hs⟩
  | case2 s escaped c rest hopen ih =>
      rw [Normalizer.scan, if_pos hopen]
      have hinside : Tidy { s with inString := true, quoteChar := c } escaped :=
        ⟨hs.settled, hs.blank, fun h => nomatch h⟩
      exact ih (hinside.write (.inr rfl))
  | case3 s escaped c rest hopen hclose ih =>
      rw [Normalizer.scan, if_neg hopen, if_pos hclose]
      exact ih ⟨hs.settled, hs.blank, fun _ h => absurd h (by decide)⟩
  | case4 s escaped c rest hopen hclose hin ih =>
      rw [Normalizer.scan, if_neg hopen, if_neg hclose, if_pos hin]
      exact ih ⟨hs.settled, hs.blank, fun h => absurd h (by rw [hin]; decide)⟩
  | case5 s escaped c rest hopen hclose hin hnumber ih =>
      rw [Normalizer.scan, if_neg hopen, if_neg hclose, if_neg hin, if_pos hnumber]
      exact ih (hs.write (.inl rfl))
  | case6 s escaped c rest hopen hclose hin hnumber hspace hwrite ih =>
      rw [Normalizer.scan, if_neg hopen, if_neg hclose, if_neg hin, if_neg hnumber, if_pos hspace,
        if_pos hwrite]
      simp only [Bool.and_eq_true, Bool.not_eq_true', List.isEmpty_eq_false_iff] at hwrite
      have hblank : endsIn 32 true s.normalized = false := by
        rw [endsIn_of_ne_nil hwrite.2, Bool.eq_false_iff, ne_eq, endsIn_iff]
        intro hlast
        exact absurd (hs.blank hlast) (by rw [hwrite.1]; decide)
      refine ih ⟨settled_concat hs.settled ?_, fun _ => rfl, fun _ h => absurd h (by decide)⟩
      rw [hblank]
      exact ⟨by decide, fun h => absurd h (by decide), fun _ => ⟨rfl, rfl⟩, by decide⟩
  | case7 s escaped c rest hopen hclose hin hnumber hspace hwrite ih =>
      rw [Normalizer.scan, if_neg hopen, if_neg hclose, if_neg hin, if_neg hnumber, if_pos hspace,
        if_neg hwrite]
      exact ih ⟨hs.settled, hs.blank, fun _ h => absurd h (by decide)⟩
  | case8 s escaped c rest hopen hclose hin hnumber hspace ih =>
      rw [Normalizer.scan, if_neg hopen, if_neg hclose, if_neg hin, if_neg hnumber, if_neg hspace]
      have hspace : CStr.isSpace c = false := Bool.eq_false_iff.mpr hspace
      have hin : s.inString = false := Bool.eq_false_iff.mpr hin
      have hdigit : CStr.isDigit c = false := by
        simp only [Bool.or_eq_true, not_or, Bool.not_eq_true] at hnumber
        exact hnumber.1
      have hquote : isQuote c = true → escaped = true := by
        intro hc
        simpa [hc, hin] using hopen
      refine ih ⟨settled_concat hs.settled (settles_upperByte hdigit (fun hc => ?_) hspace), ?_, ?_⟩
      · exact (endsIn_iff 92 _).mpr (hs.slash hin (hquote hc))
      · simp [upperByte_ne_blank hspace]
      · intro _ hc
        simpa using (beq_upperByte (by decide) c).trans hc

theorem tidy_start : Tidy {} false :=
  ⟨trivial, (fun h => nomatch h), fun _ h => absurd h Bool.false_ne_true⟩

theorem settled_scanned (query : CStr) : Settled true false (scanned query) := by
  obtain ⟨_, hs⟩ := @Tidy.scan {} false query.val tidy_start
  exact hs.settled

/-! ## The first placeholder -/

/-- A number literal can write `?N` here. -/
def NumberFits (before after : List UInt8) : Prop :=
  (after.head? = some 32 → before.getLast? ≠ some 32) ∧
    (after.head? = some 45 ∨ after.head? = some 46 → before.getLast? = some 32)

/-- A string literal can write `?S` here. -/
def StringFits (before after : List UInt8) : Prop :=
  before.getLast? ≠ some 92 ∧ (after.head? = some 32 → before.getLast? ≠ some 32)

/-- A placeholder a literal can have written. -/
def Ambiguous (text : List UInt8) : Prop :=
  ∃ before after,
    text = before ++ 63 :: 78 :: after ∧ NumberFits before after ∨
      text = before ++ 63 :: 83 :: after ∧ StringFits before after

/-- What a run adds starts with a blank only if the last byte was none. -/
theorem exists_added (s : Normalizer) (escaped : Bool) (q : List UInt8) :
    ∃ added, (s.scan escaped q).normalized = s.normalized ++ added ∧
      (added.head? = some 32 → s.lastSpace = false) := by
  induction s, escaped, q using Normalizer.scan.induct with
  | case1 s escaped =>
      rw [Normalizer.scan]
      exact ⟨[], (List.append_nil _).symm, fun h => nomatch h⟩
  | case2 s escaped c rest hopen ih =>
      rw [Normalizer.scan, if_pos hopen]
      obtain ⟨added, hadded, _⟩ := ih
      exact ⟨63 :: 83 :: added, by rw [hadded]; simp [Normalizer.write], fun h => nomatch h⟩
  | case3 s escaped c rest hopen hclose ih =>
      rw [Normalizer.scan, if_neg hopen, if_pos hclose]
      exact ih
  | case4 s escaped c rest hopen hclose hin ih =>
      rw [Normalizer.scan, if_neg hopen, if_neg hclose, if_pos hin]
      exact ih
  | case5 s escaped c rest hopen hclose hin hnumber ih =>
      rw [Normalizer.scan, if_neg hopen, if_neg hclose, if_neg hin, if_pos hnumber]
      obtain ⟨added, hadded, _⟩ := ih
      exact ⟨63 :: 78 :: added, by rw [hadded]; simp [Normalizer.write], fun h => nomatch h⟩
  | case6 s escaped c rest hopen hclose hin hnumber hspace hwrite ih =>
      rw [Normalizer.scan, if_neg hopen, if_neg hclose, if_neg hin, if_neg hnumber, if_pos hspace,
        if_pos hwrite]
      obtain ⟨added, hadded, _⟩ := ih
      refine ⟨32 :: added, by rw [hadded]; simp, fun _ => ?_⟩
      simp only [Bool.and_eq_true, Bool.not_eq_true'] at hwrite
      exact hwrite.1
  | case7 s escaped c rest hopen hclose hin hnumber hspace hwrite ih =>
      rw [Normalizer.scan, if_neg hopen, if_neg hclose, if_neg hin, if_neg hnumber, if_pos hspace,
        if_neg hwrite]
      exact ih
  | case8 s escaped c rest hopen hclose hin hnumber hspace ih =>
      rw [Normalizer.scan, if_neg hopen, if_neg hclose, if_neg hin, if_neg hnumber, if_neg hspace]
      obtain ⟨added, hadded, _⟩ := ih
      refine ⟨upperByte c :: added, by rw [hadded]; simp, fun hhead => ?_⟩
      exact absurd (Option.some.inj hhead) (upperByte_ne_blank (Bool.eq_false_iff.mpr hspace))

/-- What a run adds starts with what was written first. -/
theorem head_added {s t : Normalizer} {escaped : Bool} {q added w : List UInt8} {x : UInt8}
    (ht : t.normalized = s.normalized ++ x :: w)
    (hadded : (t.scan escaped q).normalized = s.normalized ++ added) : added.head? = some x := by
  obtain ⟨more, hmore, _⟩ := exists_added t escaped q
  rw [hmore, ht, List.append_assoc, List.append_cancel_left_eq] at hadded
  rw [← hadded]
  rfl

/-- Behind a number, a sign or a point is only written after white space that is not. -/
theorem lastSpace_of_added {s : Normalizer} {q added : List UInt8} (hout : s.inString = false)
    (hne : s.normalized ≠ []) (hq : ∀ c ∈ q.head?, isNumberPart c = false)
    (hadded : (s.scan false q).normalized = s.normalized ++ added)
    (hhead : added.head? = some 45 ∨ added.head? = some 46) : s.lastSpace = true := by
  cases q with
  | nil =>
      rw [Normalizer.scan] at hadded
      rw [List.self_eq_append_right.mp hadded] at hhead
      simp at hhead
  | cons c q =>
      have hpart : isNumberPart c = false := hq c rfl
      simp only [isNumberPart, Bool.or_eq_false_iff] at hpart
      obtain ⟨⟨hdigit, hpoint⟩, hdash⟩ := hpart
      rw [Normalizer.scan] at hadded
      simp only [hout, hdigit, hdash, Bool.not_false, Bool.and_true, Bool.false_and, Bool.or_self,
        Bool.false_eq_true, if_false] at hadded
      by_cases hquote : isQuote c = true
      · rw [if_pos hquote] at hadded
        have hfirst := head_added (s := s) (x := 63) (w := [83]) rfl hadded
        rw [hfirst] at hhead
        simp at hhead
      rw [if_neg hquote, if_neg (by simp [hquote])] at hadded
      by_cases hspace : CStr.isSpace c = true
      · by_contra hlast
        rw [Bool.not_eq_true] at hlast
        rw [if_pos hspace, if_pos (by simpa [hlast] using hne)] at hadded
        have hfirst := head_added (s := s) (x := 32) (w := []) rfl hadded
        rw [hfirst] at hhead
        simp at hhead
      · rw [if_neg hspace] at hadded
        have hfirst := head_added (s := s) (x := upperByte c) (w := []) rfl hadded
        rw [hfirst, Option.some.injEq, Option.some.injEq, ← beq_iff_eq, ← beq_iff_eq (b := 46),
          beq_upperByte (by decide), beq_upperByte (by decide), hdash, hpoint] at hhead
        simp at hhead

/-- The state before the first literal shows in the text. -/
structure Exact (s : Normalizer) (escaped : Bool) : Prop where
  outside : s.inString = false
  blank : s.lastSpace = true ↔ s.normalized.getLast? = some 32
  slash : escaped = true ↔ s.normalized.getLast? = some 92

theorem Exact.not_blank {s : Normalizer} {escaped : Bool} (hs : Exact s escaped)
    (hlast : s.lastSpace = false) : s.normalized.getLast? ≠ some 32 := by
  rw [ne_eq, ← hs.blank, hlast]
  decide

theorem exact_start : Exact {} false :=
  ⟨rfl, by simp, by simp⟩

/-- The first literal of a query leaves a placeholder that fits. -/
theorem Exact.ambiguous {s : Normalizer} {escaped : Bool} {q : List UInt8}
    (hs : Exact s escaped) (hq : Plain escaped q = false) :
    Ambiguous (s.scan escaped q).normalized := by
  induction q generalizing s escaped with
  | nil => cases hq
  | cons c q ih =>
      rw [Normalizer.scan]
      simp only [hs.outside, Bool.not_false, Bool.and_true, Bool.false_eq_true, if_false]
      by_cases hopen : (isQuote c && !escaped) = true
      · rw [if_pos hopen]
        obtain ⟨after, hafter, hblank⟩ := exists_added
          ({ s with inString := true, quoteChar := c }.write [63, 83]) false (skipString c false q)
        refine ⟨s.normalized, after, .inr ⟨?_, ?_, fun hhead => hs.not_blank (hblank hhead)⟩⟩
        · rw [hafter]
          simp [Normalizer.write]
        · rw [ne_eq, ← hs.slash]
          simp only [Bool.and_eq_true, Bool.not_eq_true'] at hopen
          rw [hopen.2]
          decide
      rw [if_neg hopen, if_neg (by simp [hopen])]
      by_cases hnumber : (CStr.isDigit c || c == 45 && q.head?.any CStr.isDigit) = true
      · rw [if_pos hnumber]
        obtain ⟨after, hafter, hblank⟩ := exists_added (s.write [63, 78]) false
          (q.dropWhile isNumberPart)
        refine ⟨s.normalized, after, .inl ⟨?_, fun hhead => hs.not_blank (hblank hhead),
          fun hhead => hs.blank.mp ?_⟩⟩
        · rw [hafter]
          simp [Normalizer.write]
        · refine lastSpace_of_added (s := s.write [63, 78]) hs.outside ?_ ?_ hafter hhead
          · simp [Normalizer.write]
          · intro d hd
            have hnot := List.head?_dropWhile_not isNumberPart q
            rw [Option.mem_def.mp hd] at hnot
            exact Bool.eq_false_iff.mpr (by simpa using hnot)
      rw [if_neg hnumber]
      have hdigit : CStr.isDigit c = false := by
        simp only [Bool.or_eq_true, not_or, Bool.not_eq_true] at hnumber
        exact hnumber.1
      have hrest : Plain (c == 92) q = false := by
        rw [Bool.eq_false_iff, ne_eq]
        intro hplain
        have hall := plain_cons.mpr ⟨hdigit, Bool.eq_false_iff.mpr hopen, hplain⟩
        rw [hq] at hall
        cases hall
      by_cases hspace : CStr.isSpace c = true
      · rw [not_slash_of_space hspace] at hrest
        rw [if_pos hspace]
        split
        next hwrite =>
            exact ih ⟨rfl, by simp, by simp⟩ hrest
        next hwrite =>
            refine ih ⟨hs.outside, hs.blank, ?_⟩ hrest
            -- the last byte is a blank, or there is none
            have hlast : s.normalized.getLast? ≠ some 92 := by
              by_cases hblank : s.lastSpace = true
              · rw [hs.blank.mp hblank]
                decide
              · have hempty : s.normalized = [] := by simpa [hblank] using hwrite
                rw [hempty]
                decide
            simp [hlast]
      · have hspace : CStr.isSpace c = false := Bool.eq_false_iff.mpr hspace
        rw [if_neg (by rw [hspace]; decide)]
        refine ih ⟨rfl, ?_, ?_⟩ hrest
        · simp [upperByte_ne_blank hspace]
        · rw [List.getLast?_concat, Option.some.injEq, ← beq_iff_eq (a := upperByte c),
            beq_upperByte (by decide)]

/-! ## What a plain query says -/

theorem shape_plain {escaped : Bool} {q : List UInt8} (hq : Plain escaped q = true)
    (inWord : Bool) :
    shape escaped inWord q =
      ((q.filter fun c => !CStr.isSpace c).map upperByte).map QueryPart.byte := by
  induction q generalizing escaped inWord with
  | nil =>
      rw [shape]
      rfl
  | cons c q ih =>
      obtain ⟨hdigit, hopen, hq⟩ := plain_cons.mp hq
      rw [shape, List.filter_cons]
      simp only [hopen, hdigit, Bool.false_and, Bool.false_eq_true, if_false]
      by_cases hspace : CStr.isSpace c = true
      · rw [not_slash_of_space hspace] at hq
        rw [if_pos hspace, if_neg (by rw [hspace]; decide), ih hq]
      · rw [if_neg hspace, if_pos (by simpa using hspace), ih hq]
        rfl

/-- Only a plain query says nothing but bytes without a digit. -/
theorem plain_of_shape {escaped inWord : Bool} {q : List UInt8}
    (hq : ∀ piece ∈ shape escaped inWord q, ∃ c, piece = .byte c ∧ CStr.isDigit c = false) :
    Plain escaped q = true := by
  induction q generalizing escaped inWord with
  | nil => rfl
  | cons c q ih =>
      rw [shape] at hq
      by_cases hopen : (isQuote c && !escaped) = true
      · rw [if_pos hopen] at hq
        obtain ⟨d, hd, _⟩ := hq _ List.mem_cons_self
        cases hd
      rw [if_neg hopen] at hq
      by_cases hnumber : (CStr.isDigit c && !inWord) = true
      · rw [if_pos hnumber] at hq
        obtain ⟨d, hd, _⟩ := hq _ List.mem_cons_self
        cases hd
      rw [if_neg hnumber] at hq
      by_cases hspace : CStr.isSpace c = true
      · rw [if_pos hspace] at hq
        have hdigit : CStr.isDigit c = false := digit_of_space hspace
        refine plain_cons.mpr ⟨hdigit, Bool.eq_false_iff.mpr hopen, ?_⟩
        rw [not_slash_of_space hspace]
        exact ih hq
      · rw [if_neg hspace] at hq
        obtain ⟨d, hd, hdigit⟩ := hq _ List.mem_cons_self
        cases hd
        rw [isDigit_upperByte] at hdigit
        exact plain_cons.mpr ⟨hdigit, Bool.eq_false_iff.mpr hopen,
          ih fun piece hpiece => hq piece (List.mem_cons_of_mem _ hpiece)⟩

theorem digit_of_mem_shape {q : List UInt8} (hq : Plain false q = true) {piece : QueryPart}
    (hpiece : piece ∈ shape false false q) : ∃ c, piece = .byte c ∧ CStr.isDigit c = false := by
  rw [shape_plain hq, List.map_map, List.mem_map] at hpiece
  obtain ⟨c, hc, rfl⟩ := hpiece
  refine ⟨upperByte c, rfl, ?_⟩
  rw [isDigit_upperByte]
  exact digit_of_plain hq (List.mem_of_mem_filter hc)

/-- A query like a plain one is plain. -/
theorem Alike.plain_iff {query other : CStr} (halike : Alike query other) :
    Plain false query.val = true ↔ Plain false other.val = true := by
  unfold Alike at halike
  constructor
  · intro hplain
    refine @plain_of_shape false false _ fun piece hpiece => ?_
    rw [← halike] at hpiece
    exact digit_of_mem_shape hplain hpiece
  · intro hplain
    refine @plain_of_shape false false _ fun piece hpiece => ?_
    rw [halike] at hpiece
    exact digit_of_mem_shape hplain hpiece

theorem filter_collapseFrom (gap : Bool) (q : List UInt8) :
    (collapseFrom gap q).filter (fun c => !CStr.isSpace c) =
      (q.filter fun c => !CStr.isSpace c).map upperByte := by
  induction q generalizing gap with
  | nil => rfl
  | cons c q ih =>
      rw [collapseFrom]
      by_cases hspace : CStr.isSpace c = true
      · rw [if_pos hspace, ih, List.filter_cons_of_neg (by rw [hspace]; decide)]
      · have hspace : CStr.isSpace c = false := Bool.eq_false_iff.mpr hspace
        rw [if_neg (by rw [hspace]; decide), List.filter_cons_of_pos (by rw [hspace]; decide),
          List.filter_append, List.filter_cons_of_pos (by rw [isSpace_upperByte, hspace]; decide),
          ih, List.map_cons]
        cases gap <;> rfl

theorem filter_collapse (q : List UInt8) :
    (collapse q).filter (fun c => !CStr.isSpace c) =
      (q.filter fun c => !CStr.isSpace c).map upperByte := by
  rw [collapse, filter_collapseFrom]
  congr 1
  induction q with
  | nil => rfl
  | cons c q ih =>
      rw [List.dropWhile_cons]
      split
      next hspace => rw [ih, List.filter_cons_of_neg (by rw [hspace]; decide)]
      next => rfl

/-- Plain queries with the same words are alike. -/
theorem alike_of_collapse {query other : CStr} (hquery : Plain false query.val = true)
    (hother : Plain false other.val = true) (heq : collapse other.val = collapse query.val) :
    Alike query other := by
  unfold Alike
  rw [shape_plain hquery, shape_plain hother, ← filter_collapse, ← filter_collapse, heq]

/-! ## The normal form as a query -/

theorem zero_notMem_scan {s : Normalizer} {escaped : Bool} {q : List UInt8} (hq : 0 ∉ q)
    (hs : 0 ∉ s.normalized) : 0 ∉ (s.scan escaped q).normalized := by
  induction s, escaped, q using Normalizer.scan.induct with
  | case1 s escaped => rwa [Normalizer.scan]
  | case2 s escaped c rest hopen ih =>
      rw [Normalizer.scan, if_pos hopen]
      refine ih (fun h => hq (List.mem_cons_of_mem _ ((skipString_suffix _ _ _).mem h))) ?_
      simpa [Normalizer.write] using hs
  | case3 s escaped c rest hopen hclose ih =>
      rw [Normalizer.scan, if_neg hopen, if_pos hclose]
      exact ih (fun h => hq (List.mem_cons_of_mem _ h)) hs
  | case4 s escaped c rest hopen hclose hin ih =>
      rw [Normalizer.scan, if_neg hopen, if_neg hclose, if_pos hin]
      exact ih (fun h => hq (List.mem_cons_of_mem _ h)) hs
  | case5 s escaped c rest hopen hclose hin hnumber ih =>
      rw [Normalizer.scan, if_neg hopen, if_neg hclose, if_neg hin, if_pos hnumber]
      refine ih (fun h => hq (List.mem_cons_of_mem _ ((List.dropWhile_suffix _).mem h))) ?_
      simpa [Normalizer.write] using hs
  | case6 s escaped c rest hopen hclose hin hnumber hspace hwrite ih =>
      rw [Normalizer.scan, if_neg hopen, if_neg hclose, if_neg hin, if_neg hnumber, if_pos hspace,
        if_pos hwrite]
      exact ih (fun h => hq (List.mem_cons_of_mem _ h)) (by simpa using hs)
  | case7 s escaped c rest hopen hclose hin hnumber hspace hwrite ih =>
      rw [Normalizer.scan, if_neg hopen, if_neg hclose, if_neg hin, if_neg hnumber, if_pos hspace,
        if_neg hwrite]
      exact ih (fun h => hq (List.mem_cons_of_mem _ h)) hs
  | case8 s escaped c rest hopen hclose hin hnumber hspace ih =>
      rw [Normalizer.scan, if_neg hopen, if_neg hclose, if_neg hin, if_neg hnumber, if_neg hspace]
      refine ih (fun h => hq (List.mem_cons_of_mem _ h)) ?_
      rw [List.mem_append, List.mem_singleton, not_or]
      refine ⟨hs, fun heq => hq ?_⟩
      have hc : (c == 0) = true := by
        rw [← beq_upperByte (by decide), ← heq]
        rfl
      rw [← eq_of_beq hc]
      exact List.mem_cons_self

theorem stmtNormalizeQuery_val (query : CStr) :
    (stmtNormalizeQuery query).val = (scanned query).rdropWhile (· == 32) := by
  refine CStr.ofBytes_of_notMem fun hzero => ?_
  exact @zero_notMem_scan {} false query.val query.property List.not_mem_nil
    ((List.rdropWhile_prefix _ _).subset hzero)

theorem rdropWhile_of_last {w : List UInt8} (hw : w.getLast? ≠ some 32) :
    w.rdropWhile (· == 32) = w := by
  rw [List.rdropWhile_eq_self_iff]
  intro hne heq
  refine hw ?_
  rw [List.getLast?_eq_some_getLast hne, eq_of_beq heq]

theorem last_rdropWhile (w : List UInt8) : (w.rdropWhile (· == 32)).getLast? ≠ some 32 := by
  intro hlast
  have hne : w.rdropWhile (· == 32) ≠ [] := by
    intro hnil
    rw [hnil] at hlast
    cases hlast
  refine List.rdropWhile_last_not (· == 32) w hne ?_
  rw [List.getLast?_eq_some_getLast hne] at hlast
  rw [Option.some.inj hlast]
  rfl

/-- A settled text is its own normal form. -/
theorem normalized_of_settled {w : List UInt8} (hw : Settled true false w) :
    (({} : Normalizer).scan false w).normalized = w := by
  have hscan := @Normalizer.scan_settled {} true false w [] hw rfl (fun h => absurd h (by decide))
    (fun _ => rfl)
  rw [List.append_nil] at hscan
  rw [hscan, Normalizer.scan]
  rfl

theorem settled_normalForm (query : CStr) :
    Settled true false (stmtNormalizeQuery query).val := by
  obtain ⟨rest, hrest⟩ := List.rdropWhile_prefix (· == 32) (scanned query)
  have hall := settled_scanned query
  rw [← hrest] at hall
  rw [stmtNormalizeQuery_val]
  exact (settled_append.mp hall).1

theorem stmtNormalizeQuery_idem (query : CStr) :
    stmtNormalizeQuery (stmtNormalizeQuery query) = stmtNormalizeQuery query := by
  refine Subtype.ext ?_
  have hself : scanned (stmtNormalizeQuery query) = (stmtNormalizeQuery query).val :=
    normalized_of_settled (settled_normalForm query)
  rw [stmtNormalizeQuery_val, hself, rdropWhile_of_last]
  rw [stmtNormalizeQuery_val]
  exact last_rdropWhile _

theorem plain_normalForm (query : CStr) : Plain false (stmtNormalizeQuery query).val = true :=
  (settled_normalForm query).plain

/-! ## Where a placeholder is none -/

/-- Settled text behind a placeholder: it is written as it is. -/
theorem normalized_of_rest {s : Normalizer} {blank : Bool} {after : List UInt8}
    (hafter : Settled blank false after) (hout : s.inString = false) (hne : s.normalized ≠ [])
    (hhead : after.head? = some 32 → s.lastSpace = false) :
    (s.scan false after).normalized = s.normalized ++ after := by
  have hscan := @Normalizer.scan_settled s s.lastSpace false after []
    (hafter.of_head hhead) hout (fun hlast => ⟨hlast, hne⟩) (fun _ => rfl)
  rw [List.append_nil] at hscan
  rw [hscan, Normalizer.scan]

/-- The text up to a literal. -/
theorem scan_before {before : List UInt8} (hbefore : Settled true false before) {c : UInt8}
    (hc : CStr.isDigit c = false) (rest : List UInt8) :
    ({} : Normalizer).scan false (before ++ c :: rest) =
      (⟨before, false, endsIn 32 false before, 0⟩ : Normalizer).scan (endsIn 92 false before)
        (c :: rest) :=
  @Normalizer.scan_settled {} true false before (c :: rest) hbefore rfl
    (fun h => absurd h (by decide)) (fun _ => hc)

theorem exists_number {before after : List UInt8}
    (hw : Settled true false (before ++ 63 :: 78 :: after)) (hfits : NumberFits before after) :
    ∃ gap, 0 ∉ gap ∧
      (({} : Normalizer).scan false (before ++ 45 :: 49 :: (gap ++ after))).normalized =
        before ++ 63 :: 78 :: after := by
  obtain ⟨hbefore, hplaceholder⟩ := settled_append.mp hw
  have hafter := hplaceholder.2.2
  have hround : ∀ rest, rest.dropWhile isNumberPart = rest →
      ({} : Normalizer).scan false (before ++ 45 :: 49 :: rest) =
        (⟨before ++ [63, 78], false, endsIn 32 false before, 0⟩ : Normalizer).scan false rest := by
    intro rest hrest
    rw [scan_before hbefore (by decide), Normalizer.scan]
    have hdrop : (49 :: rest).dropWhile isNumberPart = rest := by
      rw [List.dropWhile_cons_of_pos (by decide), hrest]
    rw [if_neg (by simp [isQuote]), if_neg (by simp [isQuote]), if_neg (by simp),
      if_pos (by rfl), hdrop]
    rfl
  have hlast : after.head? = some 32 → endsIn 32 false before = false := by
    intro hhead
    rw [Bool.eq_false_iff, ne_eq, endsIn_iff]
    exact hfits.1 hhead
  have hwritten := @normalized_of_rest
    ⟨before ++ [63, 78], false, endsIn 32 false before, 0⟩ _ after hafter rfl (by simp) hlast
  by_cases hhead : after.head? = some 45 ∨ after.head? = some 46
  · -- white space that is not written keeps the number apart
    refine ⟨[32], by decide, ?_⟩
    have hend : endsIn 32 false before = true := (endsIn_iff 32 before).mpr (hfits.2 hhead)
    rw [hround _ (by rw [List.singleton_append, List.dropWhile_cons_of_neg (by decide)]),
      List.singleton_append, Normalizer.scan, if_neg (by simp [isQuote]),
      if_neg (by simp [isQuote]), if_neg (by simp), if_neg (by exact Bool.false_ne_true),
      if_pos (by rfl),
      if_neg (by simp [hend]), hwritten]
    simp
  · refine ⟨[], List.not_mem_nil, ?_⟩
    have hdrop : after.dropWhile isNumberPart = after := by
      cases after with
      | nil => rfl
      | cons c after =>
          refine List.dropWhile_cons_of_neg ?_
          have hdigit := hafter.1.digit
          simp only [List.head?_cons, Option.some.injEq, not_or] at hhead
          simp [isNumberPart, hdigit, hhead.1, hhead.2]
    rw [List.nil_append, hround _ hdrop, hwritten]
    simp

theorem string_written {before after : List UInt8}
    (hw : Settled true false (before ++ 63 :: 83 :: after)) (hfits : StringFits before after) :
    (({} : Normalizer).scan false (before ++ 39 :: 39 :: 39 :: after)).normalized =
      before ++ 63 :: 83 :: after := by
  obtain ⟨hbefore, hplaceholder⟩ := settled_append.mp hw
  have hafter := hplaceholder.2.2
  have hslash : endsIn 92 false before = false := by
    rw [Bool.eq_false_iff, ne_eq, endsIn_iff]
    exact hfits.1
  have hlast : after.head? = some 32 → endsIn 32 false before = false := by
    intro hhead
    rw [Bool.eq_false_iff, ne_eq, endsIn_iff]
    exact hfits.2 hhead
  have hwritten := @normalized_of_rest
    ⟨before ++ [63, 83], false, endsIn 32 false before, 39⟩ _ after hafter rfl (by simp) hlast
  have hskip : skipString 39 false (39 :: 39 :: after) = 39 :: after := rfl
  -- the third quote takes the loop out of the literal again
  rw [scan_before hbefore (by decide), hslash, Normalizer.scan, if_pos (by rfl), hskip,
    Normalizer.scan, if_neg (by simp [Normalizer.write]), if_pos (by rfl)]
  refine Eq.trans ?_ (hwritten.trans (by simp))
  rfl

/-! ## Soundness -/

theorem bytesWritten_of_plain {query : CStr} (hquery : Plain false query.val = true) :
    bytesWritten query ≤ query.length + 1 := by
  have hlen := @scan_plain_length {} false query.val hquery rfl
  have htrim := (List.rdropWhile_prefix (· == 32) (scanned query)).length_le
  change (scanned query).length ≤ 0 + query.length at hlen
  rw [bytesWritten]
  omega

theorem collapse_of_plain {query : CStr} (hquery : Plain false query.val = true) :
    (stmtNormalizeQuery query).val = collapse query.val := by
  rw [stmtNormalizeQuery_val, stmtNormalizeQuery_of_plain hquery]

theorem rdropWhile_append {w : List UInt8} {c : UInt8} (hc : c ≠ 32) (v : List UInt8) :
    (w ++ c :: v).rdropWhile (· == 32) = w ++ c :: v.rdropWhile (· == 32) := by
  induction v using List.reverseRecOn with
  | nil => exact List.rdropWhile_concat_neg _ _ _ (by simpa using hc)
  | append_singleton v d ih =>
      have hsplit : w ++ c :: (v ++ [d]) = (w ++ c :: v) ++ [d] := by simp
      by_cases hd : (d == 32) = true
      · rw [hsplit, List.rdropWhile_concat_pos (· == 32) _ _ hd, ih,
          List.rdropWhile_concat_pos (· == 32) _ _ hd]
      · rw [hsplit, List.rdropWhile_concat_neg (· == 32) _ _ hd,
          List.rdropWhile_concat_neg (· == 32) _ _ hd, ← hsplit]

theorem head_rdropWhile {w : List UInt8} {c : UInt8}
    (hhead : (w.rdropWhile (· == 32)).head? = some c) : w.head? = some c := by
  obtain ⟨rest, hrest⟩ := List.rdropWhile_prefix (· == 32) w
  rw [← hrest, List.head?_append, hhead]
  rfl

/-- Trimming does not take a placeholder away. -/
theorem Ambiguous.trimmed {w : List UInt8} (hw : Ambiguous w) :
    Ambiguous (w.rdropWhile (· == 32)) := by
  obtain ⟨before, after, ⟨rfl, hblank, hnumber⟩ | ⟨rfl, hslash, hblank⟩⟩ := hw
  · refine ⟨before, after.rdropWhile (· == 32), .inl ⟨?_, fun h => hblank (head_rdropWhile h),
      fun h => hnumber (h.imp head_rdropWhile head_rdropWhile)⟩⟩
    rw [List.append_cons, rdropWhile_append (by decide), ← List.append_cons]
  · refine ⟨before, after.rdropWhile (· == 32), .inr ⟨?_, hslash,
      fun h => hblank (head_rdropWhile h)⟩⟩
    rw [List.append_cons, rdropWhile_append (by decide), ← List.append_cons]

/-- Another query with the same normal form, which a literal makes. -/
theorem exists_other {query : CStr} (hquery : Plain false query.val = true)
    (hambiguous : Ambiguous (collapse query.val)) :
    ∃ other, stmtNormalizeQuery other = stmtNormalizeQuery query ∧
      Plain false other.val = false := by
  have hsettled : Settled true false (collapse query.val) := settled_collapse hquery
  have hlast : (collapse query.val).getLast? ≠ some 32 := by
    rw [← collapse_of_plain hquery, stmtNormalizeQuery_val]
    exact last_rdropWhile _
  have hzero : 0 ∉ collapse query.val := by
    rw [← collapse_of_plain hquery]
    exact (stmtNormalizeQuery query).property
  have hother : ∀ bytes : List UInt8, 0 ∉ bytes →
      (({} : Normalizer).scan false bytes).normalized = collapse query.val →
        stmtNormalizeQuery (CStr.ofBytes bytes) = stmtNormalizeQuery query := by
    intro bytes hbytes hscan
    refine Subtype.ext ?_
    rw [stmtNormalizeQuery_val, scanned, CStr.ofBytes_of_notMem hbytes, hscan,
      rdropWhile_of_last hlast, collapse_of_plain hquery]
  obtain ⟨before, after, ⟨heq, hfits⟩ | ⟨heq, hfits⟩⟩ := hambiguous
  · rw [heq] at hsettled hzero
    obtain ⟨gap, hgap, hscan⟩ := exists_number hsettled hfits
    have hbytes : 0 ∉ before ++ 45 :: 49 :: (gap ++ after) := by
      simp only [List.mem_append, List.mem_cons, not_or] at hzero ⊢
      exact ⟨hzero.1, by decide, by decide, hgap, hzero.2.2.2⟩
    refine ⟨_, hother _ hbytes (hscan.trans heq.symm), ?_⟩
    rw [CStr.ofBytes_of_notMem hbytes, plain_append, Plain, Plain]
    simp [CStr.isDigit]
  · rw [heq] at hsettled hzero
    have hbytes : 0 ∉ before ++ 39 :: 39 :: 39 :: after := by
      simp only [List.mem_append, List.mem_cons, not_or] at hzero ⊢
      exact ⟨hzero.1, by decide, by decide, by decide, hzero.2.2.2⟩
    refine ⟨_, hother _ hbytes ((string_written hsettled hfits).trans heq.symm), ?_⟩
    have hslash : endsIn 92 false before = false := by
      rw [Bool.eq_false_iff, ne_eq, endsIn_iff]
      exact hfits.1
    rw [CStr.ofBytes_of_notMem hbytes, plain_append, hslash, Plain]
    simp [isQuote]

/-- The normal form is sound for the queries without a literal and without a placeholder that a
literal can write. -/
theorem soundlyNormalized_iff (query : CStr) :
    SoundlyNormalized query ↔
      Plain false query.val = true ∧ ¬ Ambiguous (collapse query.val) := by
  constructor
  · rintro ⟨_, halike⟩
    have hplain : Plain false query.val = true :=
      (halike _ (stmtNormalizeQuery_idem query)).plain_iff.mpr (plain_normalForm query)
    refine ⟨hplain, fun hambiguous => ?_⟩
    obtain ⟨other, heq, hother⟩ := exists_other hplain hambiguous
    rw [(halike other heq).plain_iff.mp hplain] at hother
    cases hother
  · rintro ⟨hplain, hambiguous⟩
    refine ⟨bytesWritten_of_plain hplain, fun other heq => ?_⟩
    have hcollapse := collapse_of_plain hplain
    by_cases hother : Plain false other.val = true
    · refine alike_of_collapse hplain hother ?_
      rw [← collapse_of_plain hother, heq, hcollapse]
    · -- a literal of the other query has left its placeholder
      refine absurd ?_ hambiguous
      rw [← hcollapse, ← heq, stmtNormalizeQuery_val]
      exact (exact_start.ambiguous (Bool.eq_false_iff.mpr hother)).trimmed

/-- A digit becomes two bytes, and what follows a string is lost. -/
theorem not_soundlyNormalized_literals :
    ¬ bytesWritten (CStr.lit "1") ≤ (CStr.lit "1").length + 1 ∧
      stmtNormalizeQuery (CStr.lit "SELECT 'a' FROM t") =
        stmtNormalizeQuery (CStr.lit "SELECT 'a' FROM u") ∧
      ¬ Alike (CStr.lit "SELECT 'a' FROM t") (CStr.lit "SELECT 'a' FROM u") := by
  unfold Alike
  decide +kernel

end Server
end InventixDB
