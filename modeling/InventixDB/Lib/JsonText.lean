import Mathlib.Data.List.Basic
import Mathlib.Data.UInt

/-!
# JsonText — the grammar of JSON, over bytes

The text of a value, with objects as lists of members that keep their text.  `scan` is a coarser
reading by an automaton: it tells strings from what stands outside of them, checks their escapes,
counts the open braces and remembers a comma.  Whatever the grammar derives leaves the automaton
where it was; texts that do not are no values.
-/

namespace InventixDB
namespace Lib
namespace JsonText

/-! ## Characters -/

def isBlank (c : UInt8) : Bool :=
  c == 32 || c == 9 || c == 10 || c == 13

def isDigit (c : UInt8) : Bool :=
  48 ≤ c && c ≤ 57

def isHex (c : UInt8) : Bool :=
  isDigit c || (97 ≤ c && c ≤ 102) || (65 ≤ c && c ≤ 70)

/-- A byte of a string that stands for itself. -/
def isPlain (c : UInt8) : Bool :=
  32 ≤ c && c != 34 && c != 92

/-- What may follow a backslash, apart from `u`. -/
def isEscape (c : UInt8) : Bool :=
  c == 34 || c == 92 || c == 47 || c == 98 || c == 102 || c == 110 || c == 114 || c == 116

def Blank (t : List UInt8) : Prop :=
  ∀ c ∈ t, isBlank c = true

/-! ## The grammar -/

/-- What stands between the quotes of a string. -/
inductive StringBody : List UInt8 → Prop
  | nil : StringBody []
  | plain {c t} (hc : isPlain c = true) (ht : StringBody t) : StringBody (c :: t)
  | escape {c t} (hc : isEscape c = true) (ht : StringBody t) : StringBody (92 :: c :: t)
  | unicode {a b c d t} (hhex : ∀ x ∈ [a, b, c, d], isHex x = true) (ht : StringBody t) :
      StringBody (92 :: 117 :: a :: b :: c :: d :: t)

def quoted (body : List UInt8) : List UInt8 :=
  34 :: (body ++ [34])

/-- Some digits. -/
def Digits (t : List UInt8) : Prop :=
  t ≠ [] ∧ ∀ c ∈ t, isDigit c = true

/-- An integer has no leading zeros. -/
def IntText (t : List UInt8) : Prop :=
  Digits t ∧ (t.head? = some 48 → t = [48])

def FracText (t : List UInt8) : Prop :=
  t = [] ∨ ∃ ds, Digits ds ∧ t = 46 :: ds

def ExpText (t : List UInt8) : Prop :=
  t = [] ∨ ∃ e sign ds, (e = 101 ∨ e = 69) ∧ (sign = [] ∨ sign = [43] ∨ sign = [45]) ∧
    Digits ds ∧ t = e :: (sign ++ ds)

def NumberText (t : List UInt8) : Prop :=
  ∃ sign int frac exp, (sign = [] ∨ sign = [45]) ∧ IntText int ∧ FracText frac ∧ ExpText exp ∧
    t = sign ++ (int ++ (frac ++ exp))

/-- `true`, `false`, `null` -/
def words : List (List UInt8) :=
  [[116, 114, 117, 101], [102, 97, 108, 115, 101], [110, 117, 108, 108]]

/-- An array's element, with the white space around it. -/
structure Item where
  before : List UInt8
  value : List UInt8
  after : List UInt8

/-- An object's member: the text between the quotes of its name, its value, and white space. -/
structure Member where
  before : List UInt8
  name : List UInt8
  afterName : List UInt8
  beforeValue : List UInt8
  value : List UInt8
  afterValue : List UInt8

def Item.text (i : Item) : List UInt8 :=
  i.before ++ (i.value ++ i.after)

def Member.text (m : Member) : List UInt8 :=
  m.before ++ (quoted m.name ++ (m.afterName ++ 58 :: (m.beforeValue ++ (m.value ++ m.afterValue))))

/-- What an element needs besides its value. -/
def Item.Framed (i : Item) : Prop :=
  Blank i.before ∧ Blank i.after

/-- What a member needs besides its value. -/
structure Member.Framed (m : Member) : Prop where
  before : Blank m.before
  name : StringBody m.name
  afterName : Blank m.afterName
  beforeValue : Blank m.beforeValue
  afterValue : Blank m.afterValue

def commaSeparated : List (List UInt8) → List UInt8
  | [] => []
  | [t] => t
  | t :: t' :: ts => t ++ 44 :: commaSeparated (t' :: ts)

inductive Value : List UInt8 → Prop
  | word {t} (ht : t ∈ words) : Value t
  | number {t} (ht : NumberText t) : Value t
  | string {body} (hbody : StringBody body) : Value (quoted body)
  | emptyArray {w} (hw : Blank w) : Value (91 :: (w ++ [93]))
  | array {items : List Item} (hne : items ≠ []) (hframed : ∀ i ∈ items, i.Framed)
      (hvalue : ∀ i ∈ items, Value i.value) :
      Value (91 :: (commaSeparated (items.map Item.text) ++ [93]))
  | emptyObject {w} (hw : Blank w) : Value (123 :: (w ++ [125]))
  | object {members : List Member} (hne : members ≠ []) (hframed : ∀ m ∈ members, m.Framed)
      (hvalue : ∀ m ∈ members, Value m.value) :
      Value (123 :: (commaSeparated (members.map Member.text) ++ [125]))

/-- What stands between the braces of an object with these members. -/
inductive ObjectBody : List UInt8 → List Member → Prop
  | empty {w} (hw : Blank w) : ObjectBody w []
  | members {members} (hne : members ≠ []) (hframed : ∀ m ∈ members, m.Framed)
      (hvalue : ∀ m ∈ members, Value m.value) :
      ObjectBody (commaSeparated (members.map Member.text)) members

/-- A text that is an object with these members. -/
def ObjectText (t : List UInt8) (members : List Member) : Prop :=
  ∃ before body after, Blank before ∧ ObjectBody body members ∧ Blank after ∧
    t = before ++ 123 :: (body ++ 125 :: after)

/-- Names and values, without the white space. -/
def fields (members : List Member) : List (List UInt8 × List UInt8) :=
  members.map fun m => (m.name, m.value)

/-- The value under a name; of equal names the last one counts. -/
def lastValue (members : List Member) (name : List UInt8) : Option (List UInt8) :=
  ((fields members).reverse.find? fun field => field.1 = name).map Prod.snd

/-! ## The automaton -/

inductive Mode where
  | plain (comma : Bool)
  | string
  | escape
  | hex (k : Nat)
  deriving DecidableEq

structure Scan where
  mode : Mode
  depth : Nat
  deriving DecidableEq

/-- A byte that may stand outside of strings, apart from quotes, braces, commas and blanks. -/
def isBare (c : UInt8) : Bool :=
  isDigit c || c == 43 || c == 45 || c == 46 || c == 58 || c == 69 || c == 91 || c == 93 ||
    c == 97 || c == 101 || c == 102 || c == 108 || c == 110 || c == 114 || c == 115 ||
    c == 116 || c == 117

def Scan.step (s : Scan) (c : UInt8) : Option Scan :=
  match s.mode with
  | .plain comma =>
      if c = 34 then some { s with mode := .string }
      else if c = 123 then some { mode := .plain false, depth := s.depth + 1 }
      else if c = 125 then
        if comma = true ∨ s.depth = 0 then none
        else some { mode := .plain false, depth := s.depth - 1 }
      else if c = 44 then some { s with mode := .plain true }
      else if isBlank c then some s
      else if isBare c then some { s with mode := .plain false }
      else none
  | .string =>
      if c = 34 then some { s with mode := .plain false }
      else if c = 92 then some { s with mode := .escape }
      else if 32 ≤ c then some s
      else none
  | .escape =>
      if isEscape c then some { s with mode := .string }
      else if c = 117 then some { s with mode := .hex 3 }
      else none
  | .hex 0 => if isHex c then some { s with mode := .string } else none
  | .hex (k + 1) => if isHex c then some { s with mode := .hex k } else none

def Scan.run (s : Scan) (t : List UInt8) : Option Scan :=
  t.foldlM Scan.step s

variable {s s' : Scan} {t u : List UInt8} {comma : Bool} {d k : Nat} {c : UInt8}

@[simp]
theorem run_nil : s.run [] = some s := rfl

theorem run_cons : s.run (c :: t) = (s.step c).bind fun s' => s'.run t := by
  rw [Scan.run, List.foldlM_cons]
  rfl

theorem run_append : s.run (t ++ u) = (s.run t).bind fun s' => s'.run u := by
  rw [Scan.run, List.foldlM_append]
  rfl

theorem run_append_of_run (ht : s.run t = some s') : s.run (t ++ u) = s'.run u := by
  rw [run_append, ht, Option.bind_some]

theorem run_cons_of_step (hc : s.step c = some s') : s.run (c :: t) = s'.run t := by
  rw [run_cons, hc, Option.bind_some]

/-! ## Pieces of the grammar leave the automaton where it was -/

theorem run_blank (ht : Blank t) : Scan.run ⟨.plain comma, d⟩ t = some ⟨.plain comma, d⟩ := by
  induction t with
  | nil => rfl
  | cons c t ih =>
      obtain ⟨hc, ht⟩ := List.forall_mem_cons.mp ht
      have hne : c ≠ 34 ∧ c ≠ 123 ∧ c ≠ 125 ∧ c ≠ 44 := by
        refine ⟨?_, ?_, ?_, ?_⟩ <;>
        · rintro rfl
          exact absurd hc (by decide)
      have hstep : Scan.step ⟨.plain comma, d⟩ c = some ⟨.plain comma, d⟩ := by
        simp [Scan.step, hne, hc]
      rw [run_cons_of_step hstep, ih ht]

theorem step_bare (hc : isBare c = true) :
    Scan.step ⟨.plain comma, d⟩ c = some ⟨.plain false, d⟩ := by
  have hne : c ≠ 34 ∧ c ≠ 123 ∧ c ≠ 125 ∧ c ≠ 44 ∧ isBlank c = false := by
    refine ⟨?_, ?_, ?_, ?_, ?_⟩
    iterate 4
      · rintro rfl
        exact absurd hc (by decide)
    · by_contra hblank
      rw [Bool.not_eq_false] at hblank
      revert hc
      simp only [isBlank, Bool.or_eq_true, beq_iff_eq] at hblank
      rcases hblank with ((rfl | rfl) | rfl) | rfl <;> decide
  simp [Scan.step, hne, hc]

theorem run_bare (ht : ∀ c ∈ t, isBare c = true) (hne : t ≠ []) :
    Scan.run ⟨.plain comma, d⟩ t = some ⟨.plain false, d⟩ := by
  induction t generalizing comma with
  | nil => exact absurd rfl hne
  | cons c t ih =>
      obtain ⟨hc, ht⟩ := List.forall_mem_cons.mp ht
      rw [run_cons_of_step (step_bare hc)]
      cases t with
      | nil => rfl
      | cons c' t => exact ih ht (List.cons_ne_nil c' t)

theorem step_string_plain (hc : isPlain c = true) :
    Scan.step ⟨.string, d⟩ c = some ⟨.string, d⟩ := by
  simp only [isPlain, Bool.and_eq_true, decide_eq_true_eq, bne_iff_ne] at hc
  obtain ⟨⟨hlow, hquote⟩, hback⟩ := hc
  simp [Scan.step, hlow, hquote, hback]

theorem step_hex (hc : isHex c = true) :
    Scan.step ⟨.hex (k + 1), d⟩ c = some ⟨.hex k, d⟩ := by
  simp [Scan.step, hc]

theorem step_lastHex (hc : isHex c = true) :
    Scan.step ⟨.hex 0, d⟩ c = some ⟨.string, d⟩ := by
  simp [Scan.step, hc]

theorem run_stringBody (ht : StringBody t) : Scan.run ⟨.string, d⟩ t = some ⟨.string, d⟩ := by
  induction ht with
  | nil => rfl
  | plain hc ht ih => rw [run_cons_of_step (step_string_plain hc), ih]
  | @escape c t hc ht ih =>
      have hback : Scan.step ⟨.string, d⟩ 92 = some ⟨.escape, d⟩ := rfl
      have hescape : Scan.step ⟨.escape, d⟩ c = some ⟨.string, d⟩ := by simp [Scan.step, hc]
      rw [run_cons_of_step hback, run_cons_of_step hescape, ih]
  | @unicode a b c e t hhex ht ih =>
      have hback : Scan.step ⟨.string, d⟩ 92 = some ⟨.escape, d⟩ := rfl
      have hu : Scan.step ⟨.escape, d⟩ 117 = some ⟨.hex 3, d⟩ := rfl
      simp only [List.forall_mem_cons] at hhex
      obtain ⟨ha, hb, hc, he, -⟩ := hhex
      rw [run_cons_of_step hback, run_cons_of_step hu, run_cons_of_step (step_hex ha),
        run_cons_of_step (step_hex hb), run_cons_of_step (step_hex hc),
        run_cons_of_step (step_lastHex he), ih]

theorem run_quoted (ht : StringBody t) :
    Scan.run ⟨.plain comma, d⟩ (quoted t) = some ⟨.plain false, d⟩ := by
  have hopen : Scan.step ⟨.plain comma, d⟩ 34 = some ⟨.string, d⟩ := rfl
  rw [quoted, run_cons_of_step hopen, run_append_of_run (run_stringBody ht)]
  rfl

theorem isBare_of_isDigit (hc : isDigit c = true) : isBare c = true := by
  simp [isBare, hc]

theorem NumberText.isBare (ht : NumberText t) : (∀ c ∈ t, isBare c = true) ∧ t ≠ [] := by
  obtain ⟨sign, int, frac, exp, hsign, ⟨⟨hne, hint⟩, -⟩, hfrac, hexp, rfl⟩ := ht
  refine ⟨?_, by simp [hne]⟩
  have hdigit : ∀ ds : List UInt8, (∀ c ∈ ds, isDigit c = true) →
      ∀ c ∈ ds, JsonText.isBare c = true :=
    fun ds hds c hc => isBare_of_isDigit (hds c hc)
  refine List.forall_mem_append.mpr ⟨?_, List.forall_mem_append.mpr
    ⟨hdigit int hint, List.forall_mem_append.mpr ⟨?_, ?_⟩⟩⟩
  · rcases hsign with rfl | rfl
    · rintro c ⟨⟩
    · exact List.forall_mem_singleton.mpr (by decide)
  · rcases hfrac with rfl | ⟨ds, hds, rfl⟩
    · rintro c ⟨⟩
    · exact List.forall_mem_cons.mpr ⟨by decide, hdigit ds hds.2⟩
  · rcases hexp with rfl | ⟨e, sign, ds, he, hsign, hds, rfl⟩
    · rintro c ⟨⟩
    · refine List.forall_mem_cons.mpr ⟨?_, List.forall_mem_append.mpr ⟨?_, hdigit ds hds.2⟩⟩
      · rcases he with rfl | rfl <;> decide
      · rcases hsign with rfl | rfl | rfl
        · rintro c ⟨⟩
        · exact List.forall_mem_singleton.mpr (by decide)
        · exact List.forall_mem_singleton.mpr (by decide)

/-- A list of pieces, each of which leads outside of strings again. -/
theorem run_commaSeparated {ts : List (List UInt8)} (hne : ts ≠ [])
    (hts : ∀ t ∈ ts, ∀ comma, Scan.run ⟨.plain comma, d⟩ t = some ⟨.plain false, d⟩) :
    Scan.run ⟨.plain comma, d⟩ (commaSeparated ts) = some ⟨.plain false, d⟩ := by
  induction ts generalizing comma with
  | nil => exact absurd rfl hne
  | cons t ts ih =>
      obtain ⟨ht, hts⟩ := List.forall_mem_cons.mp hts
      cases ts with
      | nil => exact ht comma
      | cons t' ts =>
          have hcomma : Scan.step ⟨.plain false, d⟩ 44 = some ⟨.plain true, d⟩ := rfl
          rw [commaSeparated, run_append_of_run (ht comma), run_cons_of_step hcomma]
          exact ih (List.cons_ne_nil t' ts) hts

theorem run_item {i : Item} (hi : i.Framed)
    (hvalue : ∀ comma, Scan.run ⟨.plain comma, d⟩ i.value = some ⟨.plain false, d⟩) :
    Scan.run ⟨.plain comma, d⟩ i.text = some ⟨.plain false, d⟩ := by
  rw [Item.text, run_append_of_run (run_blank hi.1), run_append_of_run (hvalue comma),
    run_blank hi.2]

theorem run_member {m : Member} (hm : m.Framed)
    (hvalue : ∀ comma, Scan.run ⟨.plain comma, d⟩ m.value = some ⟨.plain false, d⟩) :
    Scan.run ⟨.plain comma, d⟩ m.text = some ⟨.plain false, d⟩ := by
  have hcolon : Scan.step ⟨.plain false, d⟩ 58 = some ⟨.plain false, d⟩ := rfl
  rw [Member.text, run_append_of_run (run_blank hm.before), run_append_of_run (run_quoted hm.name),
    run_append_of_run (run_blank hm.afterName), run_cons_of_step hcolon,
    run_append_of_run (run_blank hm.beforeValue), run_append_of_run (hvalue false),
    run_blank hm.afterValue]

/-- The text between braces, and the closing brace. -/
theorem run_braces (hbody : Scan.run ⟨.plain false, d + 1⟩ t = some ⟨.plain false, d + 1⟩) :
    Scan.run ⟨.plain comma, d⟩ (123 :: (t ++ [125])) = some ⟨.plain false, d⟩ := by
  have hopen : Scan.step ⟨.plain comma, d⟩ 123 = some ⟨.plain false, d + 1⟩ := rfl
  have hclose : Scan.step ⟨.plain false, d + 1⟩ 125 = some ⟨.plain false, d⟩ := rfl
  rw [run_cons_of_step hopen, run_append_of_run hbody, run_cons_of_step hclose, run_nil]

theorem run_brackets (hbody : Scan.run ⟨.plain false, d⟩ t = some ⟨.plain false, d⟩) :
    Scan.run ⟨.plain comma, d⟩ (91 :: (t ++ [93])) = some ⟨.plain false, d⟩ := by
  have hopen : Scan.step ⟨.plain comma, d⟩ 91 = some ⟨.plain false, d⟩ := rfl
  rw [run_cons_of_step hopen, run_append_of_run hbody]
  rfl

theorem Value.run (hv : Value t) : Scan.run ⟨.plain comma, d⟩ t = some ⟨.plain false, d⟩ := by
  induction hv generalizing comma d with
  | word ht =>
      simp only [words, List.mem_cons, List.not_mem_nil, or_false] at ht
      rcases ht with rfl | rfl | rfl <;> rfl
  | number ht => exact run_bare ht.isBare.1 ht.isBare.2
  | string hbody => exact run_quoted hbody
  | emptyArray hw => exact run_brackets (run_blank hw)
  | array hne hframed hvalue ih =>
      refine run_brackets (run_commaSeparated (by simpa using hne) ?_)
      intro t ht comma
      obtain ⟨i, hi, rfl⟩ := List.mem_map.mp ht
      exact run_item (hframed i hi) fun comma => ih i hi
  | emptyObject hw => exact run_braces (run_blank hw)
  | object hne hframed hvalue ih =>
      refine run_braces (run_commaSeparated (by simpa using hne) ?_)
      intro t ht comma
      obtain ⟨m, hm, rfl⟩ := List.mem_map.mp ht
      exact run_member (hframed m hm) fun comma => ih m hm

theorem run_members {ms : List Member} (hne : ms ≠ []) (hframed : ∀ m ∈ ms, m.Framed)
    (hvalue : ∀ m ∈ ms, Value m.value) :
    Scan.run ⟨.plain comma, d⟩ (commaSeparated (ms.map Member.text)) = some ⟨.plain false, d⟩ := by
  refine run_commaSeparated (by simpa using hne) fun t ht comma => ?_
  obtain ⟨m, hm, rfl⟩ := List.mem_map.mp ht
  exact run_member (hframed m hm) fun comma => (hvalue m hm).run

theorem ObjectBody.run {ms : List Member} (hbody : ObjectBody t ms) :
    Scan.run ⟨.plain false, d⟩ t = some ⟨.plain false, d⟩ := by
  cases hbody with
  | empty hw => exact run_blank hw
  | members hne hframed hvalue => exact run_members hne hframed hvalue

/-- An object leaves no brace open. -/
theorem ObjectText.run {ms : List Member} (ht : ObjectText t ms) :
    Scan.run ⟨.plain false, 0⟩ t = some ⟨.plain false, 0⟩ := by
  obtain ⟨before, body, after, hbefore, hbody, hafter, rfl⟩ := ht
  have hsplit : before ++ 123 :: (body ++ 125 :: after) =
      before ++ (123 :: (body ++ [125]) ++ after) := by simp
  rw [hsplit, run_append_of_run (run_blank hbefore), run_append_of_run (run_braces hbody.run),
    run_blank hafter]

/-! ## What a step inside a string tells -/

theorem run_string_cons (hrun : Scan.run ⟨.string, d⟩ (c :: t) = some s) :
    (c = 34 ∧ Scan.run ⟨.plain false, d⟩ t = some s) ∨
      (c = 92 ∧ Scan.run ⟨.escape, d⟩ t = some s) ∨
        (c ≠ 34 ∧ c ≠ 92 ∧ isPlain c = true ∧ Scan.run ⟨.string, d⟩ t = some s) := by
  by_cases hquote : c = 34
  · subst hquote
    exact Or.inl ⟨rfl, hrun⟩
  by_cases hback : c = 92
  · subst hback
    exact Or.inr (Or.inl ⟨rfl, hrun⟩)
  by_cases hlow : 32 ≤ c
  · have hplain : isPlain c = true := by simp [isPlain, hlow, hquote, hback]
    rw [run_cons_of_step (step_string_plain hplain)] at hrun
    exact Or.inr (Or.inr ⟨hquote, hback, hplain, hrun⟩)
  · rw [run_cons] at hrun
    simp [Scan.step, hquote, hback, hlow] at hrun

theorem run_escape_cons (hrun : Scan.run ⟨.escape, d⟩ (c :: t) = some s) :
    (isEscape c = true ∧ Scan.run ⟨.string, d⟩ t = some s) ∨
      (c = 117 ∧ Scan.run ⟨.hex 3, d⟩ t = some s) := by
  by_cases hescape : isEscape c = true
  · have hstep : Scan.step ⟨.escape, d⟩ c = some ⟨.string, d⟩ := by simp [Scan.step, hescape]
    rw [run_cons_of_step hstep] at hrun
    exact Or.inl ⟨hescape, hrun⟩
  by_cases hu : c = 117
  · subst hu
    exact Or.inr ⟨rfl, hrun⟩
  · rw [run_cons] at hrun
    simp [Scan.step, hescape, hu] at hrun

theorem run_hex_cons (hrun : Scan.run ⟨.hex k, d⟩ (c :: t) = some s) :
    isHex c = true ∧
      Scan.run ⟨match k with | 0 => .string | j + 1 => .hex j, d⟩ t = some s := by
  have hhex : isHex c = true := by
    by_contra hno
    rw [run_cons] at hrun
    cases k <;> simp [Scan.step, hno] at hrun
  refine ⟨hhex, ?_⟩
  cases k with
  | zero => rwa [run_cons_of_step (step_lastHex hhex)] at hrun
  | succ j => rwa [run_cons_of_step (step_hex hhex)] at hrun

/-! ## Depth -/

/-- More open braces below change nothing. -/
theorem step_shift (hc : s.step c = some s') (k : Nat) :
    Scan.step ⟨s.mode, s.depth + k⟩ c = some ⟨s'.mode, s'.depth + k⟩ := by
  obtain ⟨mode, depth⟩ := s
  cases mode with
  | plain comma =>
      simp only [Scan.step] at hc ⊢
      grind
  | string =>
      simp only [Scan.step] at hc ⊢
      grind
  | escape =>
      simp only [Scan.step] at hc ⊢
      grind
  | hex j =>
      cases j <;>
      · simp only [Scan.step] at hc ⊢
        grind

theorem run_shift (ht : s.run t = some s') (k : Nat) :
    Scan.run ⟨s.mode, s.depth + k⟩ t = some ⟨s'.mode, s'.depth + k⟩ := by
  induction t generalizing s with
  | nil =>
      cases ht
      rfl
  | cons c t ih =>
      rw [run_cons] at ht
      obtain ⟨next, hnext, hrest⟩ := Option.bind_eq_some_iff.mp ht
      rw [run_cons_of_step (step_shift hnext k)]
      exact ih hrest

theorem StringBody.zero_notMem (ht : StringBody t) : 0 ∉ t := by
  induction ht with
  | nil => exact List.not_mem_nil
  | plain hc ht ih =>
      refine List.not_mem_cons_of_ne_of_not_mem ?_ ih
      rintro rfl
      exact absurd hc (by decide)
  | escape hc ht ih =>
      refine List.not_mem_cons_of_ne_of_not_mem (by decide)
        (List.not_mem_cons_of_ne_of_not_mem ?_ ih)
      rintro rfl
      exact absurd hc (by decide)
  | @unicode a b c e t hhex ht ih =>
      have hne : ∀ x ∈ [a, b, c, e], x ≠ 0 := by
        rintro x hx rfl
        exact absurd (hhex 0 hx) (by decide)
      simp only [List.mem_cons, not_or]
      refine ⟨by decide, by decide, ?_, ?_, ?_, ?_, ih⟩
      all_goals
        refine (hne _ ?_).symm
        simp

/-! ## The last byte of a value -/

theorem Digits.last (ht : Digits t) : ∃ init c, t = init ++ [c] ∧ isDigit c = true := by
  rcases List.eq_nil_or_concat t with rfl | ⟨init, c, rfl⟩
  · exact absurd rfl ht.1
  · rw [List.concat_eq_append] at ht ⊢
    exact ⟨init, c, rfl, ht.2 c (List.mem_append_right _ List.mem_cons_self)⟩

theorem NumberText.last (ht : NumberText t) : ∃ init c, t = init ++ [c] ∧ isDigit c = true := by
  obtain ⟨sign, int, frac, exp, -, ⟨hint, -⟩, hfrac, hexp, rfl⟩ := ht
  rcases hexp with rfl | ⟨e, sign', ds, -, -, hds, rfl⟩
  · rcases hfrac with rfl | ⟨ds, hds, rfl⟩
    · obtain ⟨init, c, rfl, hc⟩ := hint.last
      exact ⟨sign ++ init, c, by simp, hc⟩
    · obtain ⟨init, c, rfl, hc⟩ := hds.last
      exact ⟨sign ++ (int ++ 46 :: init), c, by simp, hc⟩
  · obtain ⟨init, c, rfl, hc⟩ := hds.last
    exact ⟨sign ++ (int ++ (frac ++ e :: (sign' ++ init))), c, by simp, hc⟩

/-- An object ends with its brace, and no other value ends with a brace or white space. -/
theorem Value.last (hv : Value t) :
    ∃ init c, t = init ++ [c] ∧
      if t.head? = some 123 then c = 125
      else isDigit c = true ∨ c = 34 ∨ c = 93 ∨ c = 101 ∨ c = 108 := by
  cases hv with
  | word ht =>
      simp only [words, List.mem_cons, List.not_mem_nil, or_false] at ht
      rcases ht with rfl | rfl | rfl
      · exact ⟨[116, 114, 117], 101, rfl, by decide⟩
      · exact ⟨[102, 97, 108, 115], 101, rfl, by decide⟩
      · exact ⟨[110, 117, 108], 108, rfl, by decide⟩
  | number ht =>
      obtain ⟨init, c, hlast, hc⟩ := ht.last
      refine ⟨init, c, hlast, ?_⟩
      rw [if_neg]
      · exact Or.inl hc
      · intro hhead
        exact absurd (ht.isBare.1 123 (List.mem_of_mem_head? hhead)) (by decide)
  | @string body hbody => exact ⟨34 :: body, 34, rfl, by simp [quoted]⟩
  | @emptyArray w hw => exact ⟨91 :: w, 93, rfl, by simp⟩
  | @array items hne hframed hvalue =>
      exact ⟨91 :: commaSeparated (items.map Item.text), 93, rfl, by simp⟩
  | @emptyObject w hw => exact ⟨123 :: w, 125, rfl, by simp⟩
  | @object members hne hframed hvalue =>
      exact ⟨123 :: commaSeparated (members.map Member.text), 125, rfl, by simp⟩

/-! ## Joining members -/

theorem lastValue_append (ms ms' : List Member) (name : List UInt8) :
    lastValue (ms ++ ms') name = (lastValue ms' name).or (lastValue ms name) := by
  rw [lastValue, lastValue, lastValue, fields, List.map_append, List.reverse_append,
    List.find?_append, Option.map_or]
  rfl

theorem commaSeparated_concat (ts : List (List UInt8)) (t : List UInt8) :
    commaSeparated (ts ++ [t]) = ts.flatMap (fun t => t ++ [44]) ++ t := by
  induction ts with
  | nil => rfl
  | cons t' ts ih =>
      obtain ⟨u, us, hus⟩ := List.exists_cons_of_ne_nil (List.append_ne_nil_of_right_ne_nil ts
        (List.cons_ne_nil t []))
      rw [List.cons_append, hus, commaSeparated, ← hus, ih, List.flatMap_cons]
      simp

theorem commaSeparated_append {ts us : List (List UInt8)} (hts : ts ≠ []) (hus : us ≠ []) :
    commaSeparated (ts ++ us) = commaSeparated ts ++ 44 :: commaSeparated us := by
  induction ts with
  | nil => exact absurd rfl hts
  | cons t ts ih =>
      obtain ⟨u, us, rfl⟩ := List.exists_cons_of_ne_nil hus
      cases ts with
      | nil => rfl
      | cons t' ts =>
          have hrec := ih (List.cons_ne_nil t' ts)
          rw [List.cons_append, List.cons_append, commaSeparated, ← List.cons_append, hrec,
            commaSeparated, List.append_assoc, List.cons_append]

/-- Behind a comma the members of two bodies are those of one. -/
theorem ObjectBody.append {ms ms' : List Member} (ht : ObjectBody t ms) (hu : ObjectBody u ms')
    (hne : ms ≠ []) (hne' : ms' ≠ []) : ObjectBody (t ++ 44 :: u) (ms ++ ms') := by
  cases ht with
  | empty hw => exact absurd rfl hne
  | members _ hframed hvalue =>
      cases hu with
      | empty hw => exact absurd rfl hne'
      | members _ hframed' hvalue' =>
          rw [← commaSeparated_append (by simpa using hne) (by simpa using hne'), ← List.map_append]
          exact .members (List.append_ne_nil_of_left_ne_nil hne _)
            (List.forall_mem_append.mpr ⟨hframed, hframed'⟩)
            (List.forall_mem_append.mpr ⟨hvalue, hvalue'⟩)

theorem ObjectBody.objectText {ms : List Member} (ht : ObjectBody t ms) :
    ObjectText (123 :: (t ++ [125])) ms := by
  have hblank : Blank [] := by rintro c ⟨⟩
  exact ⟨[], t, [], hblank, ht, hblank, rfl⟩

end JsonText
end Lib
end InventixDB
