import InventixDB.Lib.JsonText
import Mathlib.Algebra.Order.Field.Rat
import Mathlib.Algebra.BigOperators.Group.List.Basic

/-!
# JsonValues — what a JSON text denotes

The value of a text of the grammar: words, numbers as fractions, strings in UTF-8, arrays, and
objects, whose fields have no order.  A measure of texts that adds up along a text is bounded by
what the strings of its value contribute.
-/

namespace InventixDB
namespace Lib
namespace JsonText

inductive Json
  | word (w : List UInt8)
  | number (x : ℚ)
  | string (s : List UInt8)
  | array (items : List Json)
  | object (fields : List (List UInt8 × Json))

/-! ## Strings -/

def hexValue (c : UInt8) : Nat :=
  if isDigit c then c.toNat - 48 else if 97 ≤ c then c.toNat - 87 else c.toNat - 55

/-- The UTF-16 unit written by four hexadecimal digits. -/
def unitValue (a b c d : UInt8) : Nat :=
  ((hexValue a * 16 + hexValue b) * 16 + hexValue c) * 16 + hexValue d

/-- A character in UTF-8. -/
def utf8 (char : Nat) : List UInt8 :=
  if char < 128 then [UInt8.ofNat char]
  else if char < 2048 then [UInt8.ofNat (192 + char / 64), UInt8.ofNat (128 + char % 64)]
  else if char < 65536 then
    [UInt8.ofNat (224 + char / 4096), UInt8.ofNat (128 + char / 64 % 64),
      UInt8.ofNat (128 + char % 64)]
  else
    [UInt8.ofNat (240 + char / 262144 % 8), UInt8.ofNat (128 + char / 4096 % 64),
      UInt8.ofNat (128 + char / 64 % 64), UInt8.ofNat (128 + char % 64)]

/-- The byte an escape stands for. -/
def unescaped (c : UInt8) : UInt8 :=
  if c = 98 then 8
  else if c = 102 then 12
  else if c = 110 then 10
  else if c = 114 then 13
  else if c = 116 then 9
  else c

/-- The string between two quotes.  A unit is a character or the first half of one. -/
inductive Spells : List UInt8 → List UInt8 → Prop
  | nil : Spells [] []
  | plain {c t s} (hc : isPlain c = true) (ht : Spells t s) : Spells (c :: t) (c :: s)
  | escape {c t s} (hc : isEscape c = true) (ht : Spells t s) :
      Spells (92 :: c :: t) (unescaped c :: s)
  | unicode {a b c d t s} (hhex : ∀ x ∈ [a, b, c, d], isHex x = true)
      (hunit : unitValue a b c d < 55296 ∨ 57344 ≤ unitValue a b c d) (ht : Spells t s) :
      Spells (92 :: 117 :: a :: b :: c :: d :: t) (utf8 (unitValue a b c d) ++ s)
  | surrogates {a b c d a' b' c' d' t s} (hhex : ∀ x ∈ [a, b, c, d], isHex x = true)
      (hhex' : ∀ x ∈ [a', b', c', d'], isHex x = true)
      (hhigh : 55296 ≤ unitValue a b c d ∧ unitValue a b c d < 56320)
      (hlow : 56320 ≤ unitValue a' b' c' d' ∧ unitValue a' b' c' d' < 57344) (ht : Spells t s) :
      Spells (92 :: 117 :: a :: b :: c :: d :: 92 :: 117 :: a' :: b' :: c' :: d' :: t)
        (utf8 (65536 + (unitValue a b c d - 55296) * 1024 + (unitValue a' b' c' d' - 56320)) ++ s)

theorem Spells.stringBody {t s : List UInt8} (hs : Spells t s) : StringBody t := by
  induction hs with
  | nil => exact .nil
  | plain hc _ ih => exact .plain hc ih
  | escape hc _ ih => exact .escape hc ih
  | unicode hhex _ _ ih => exact .unicode hhex ih
  | surrogates hhex hhex' _ _ _ ih => exact .unicode hhex (.unicode hhex' ih)

/-! ## Numbers -/

def digitsNat (ds : List UInt8) : Nat :=
  ds.foldl (fun v c => 10 * v + (c.toNat - 48)) 0

/-- The exponent a text writes. -/
def ExpDenotes (t : List UInt8) (e : Int) : Prop :=
  t = [] ∧ e = 0 ∨
    ∃ letter sign ds, (letter = 101 ∨ letter = 69) ∧ Digits ds ∧ t = letter :: (sign ++ ds) ∧
      ((sign = [] ∨ sign = [43]) ∧ e = digitsNat ds ∨ sign = [45] ∧ e = -(digitsNat ds : Int))

/-- The number a text writes. -/
def NumberDenotes (t : List UInt8) (x : ℚ) : Prop :=
  ∃ sign int frac exp e, (sign = [] ∨ sign = [45]) ∧ IntText int ∧ FracText frac ∧
    ExpDenotes exp e ∧ t = sign ++ (int ++ (frac ++ exp)) ∧
    x = (if sign = [] then 1 else -1) * digitsNat (int ++ frac.tail) *
      10 ^ (e - (frac.tail.length : Int))

theorem NumberDenotes.numberText {t : List UInt8} {x : ℚ} (ht : NumberDenotes t x) :
    NumberText t := by
  obtain ⟨sign, int, frac, exp, e, hsign, hint, hfrac, hexp, rfl, -⟩ := ht
  refine ⟨sign, int, frac, exp, hsign, hint, hfrac, ?_, rfl⟩
  rcases hexp with ⟨rfl, -⟩ | ⟨letter, sign, ds, hletter, hds, rfl, hsign⟩
  · exact .inl rfl
  · refine .inr ⟨letter, sign, ds, hletter, ?_, hds, rfl⟩
    rcases hsign with ⟨hplus | hplus, -⟩ | ⟨hminus, -⟩
    · exact .inl hplus
    · exact .inr (.inl hplus)
    · exact .inr (.inr hminus)

/-! ## Values -/

inductive Denotes : List UInt8 → Json → Prop
  | word {t} (ht : t ∈ words) : Denotes t (.word t)
  | number {t x} (ht : NumberDenotes t x) : Denotes t (.number x)
  | string {body s} (hbody : Spells body s) : Denotes (quoted body) (.string s)
  | emptyArray {w} (hw : Blank w) : Denotes (91 :: (w ++ [93])) (.array [])
  | array {items : List (Item × Json)} (hne : items ≠ []) (hframed : ∀ i ∈ items, i.1.Framed)
      (hvalue : ∀ i ∈ items, Denotes i.1.value i.2) :
      Denotes (91 :: (commaSeparated (items.map fun i => i.1.text) ++ [93]))
        (.array (items.map Prod.snd))
  | emptyObject {w} (hw : Blank w) : Denotes (123 :: (w ++ [125])) (.object [])
  | object {members : List (Member × List UInt8 × Json)} (hne : members ≠ [])
      (hframed : ∀ m ∈ members, m.1.Framed) (hname : ∀ m ∈ members, Spells m.1.name m.2.1)
      (hvalue : ∀ m ∈ members, Denotes m.1.value m.2.2) {fields : List (List UInt8 × Json)}
      (hfields : (members.map Prod.snd).Perm fields) :
      Denotes (123 :: (commaSeparated (members.map fun m => m.1.text) ++ [125]))
        (.object fields)

variable {t : List UInt8} {v : Json}

/-! ## Measures -/

mutual

/-- What the strings of a value contribute, names included. -/
def Json.total (f : List UInt8 → Nat) : Json → Nat
  | .string s => f s
  | .array items => totalItems f items
  | .object fields => totalFields f fields
  | .word _ => 0
  | .number _ => 0

def totalItems (f : List UInt8 → Nat) : List Json → Nat
  | [] => 0
  | v :: items => v.total f + totalItems f items

def totalFields (f : List UInt8 → Nat) : List (List UInt8 × Json) → Nat
  | [] => 0
  | (name, v) :: fields => f name + v.total f + totalFields f fields

end

theorem totalItems_eq (f : List UInt8 → Nat) (items : List Json) :
    totalItems f items = (items.map (Json.total f)).sum := by
  induction items with
  | nil => rfl
  | cons v items ih => rw [totalItems, ih, List.map_cons, List.sum_cons]

theorem totalFields_eq (f : List UInt8 → Nat) (fields : List (List UInt8 × Json)) :
    totalFields f fields = (fields.map fun field => f field.1 + field.2.total f).sum := by
  induction fields with
  | nil => rfl
  | cons field fields ih => rw [totalFields, ih, List.map_cons, List.sum_cons]

mutual

theorem Json.total_le {f g : List UInt8 → Nat} (hle : ∀ s, f s ≤ g s) :
    ∀ v : Json, v.total f ≤ v.total g
  | .word _ => Nat.le_refl _
  | .number _ => Nat.le_refl _
  | .string s => hle s
  | .array items => totalItems_le hle items
  | .object fields => totalFields_le hle fields

theorem totalItems_le {f g : List UInt8 → Nat} (hle : ∀ s, f s ≤ g s) :
    ∀ items : List Json, totalItems f items ≤ totalItems g items
  | [] => Nat.le_refl _
  | v :: items => Nat.add_le_add (v.total_le hle) (totalItems_le hle items)

theorem totalFields_le {f g : List UInt8 → Nat} (hle : ∀ s, f s ≤ g s) :
    ∀ fields : List (List UInt8 × Json), totalFields f fields ≤ totalFields g fields
  | [] => Nat.le_refl _
  | (name, v) :: fields =>
      Nat.add_le_add (Nat.add_le_add (hle name) (v.total_le hle)) (totalFields_le hle fields)

end

/-- The names alone make a larger total if every string contributes more. -/
theorem total_object_lt {f g : List UInt8 → Nat} (hlt : ∀ s, f s < g s)
    {fields : List (List UInt8 × Json)} (hne : fields ≠ []) :
    (Json.object fields).total f < (Json.object fields).total g := by
  have hle : ∀ s, f s ≤ g s := fun s => (hlt s).le
  obtain ⟨field, rest, rfl⟩ := List.exists_cons_of_ne_nil hne
  exact Nat.add_lt_add_of_lt_of_le
    (Nat.add_lt_add_of_lt_of_le (hlt field.1) (field.2.total_le hle)) (totalFields_le hle rest)

/-- A byte that stands outside of strings. -/
def isOff (c : UInt8) : Bool :=
  isBlank c || isBare c || c == 123 || c == 125 || c == 44

/-- A measure that adds up along texts, is nothing outside of strings and `f` on a string. -/
structure Measures (M : List UInt8 → Nat → Prop) (f : List UInt8 → Nat) : Prop where
  append : ∀ {t u m n}, M t m → M u n → M (t ++ u) (m + n)
  off : ∀ {t}, (∀ c ∈ t, isOff c = true) → M t 0
  string : ∀ {body s}, Spells body s → M (quoted body) (f s)

variable {M : List UInt8 → Nat → Prop} {f : List UInt8 → Nat}

theorem Measures.blank (hM : Measures M f) {w : List UInt8} (hw : Blank w) : M w 0 :=
  hM.off fun c hc => by simp [isOff, hw c hc]

/-- A text between two bytes that stand outside of strings. -/
theorem Measures.between (hM : Measures M f) {a b : UInt8} (ha : isOff a = true)
    (hb : isOff b = true) {n : Nat} (ht : M t n) : M (a :: (t ++ [b])) n := by
  have hopen : M [a] 0 := hM.off (List.forall_mem_singleton.mpr ha)
  have hclose : M [b] 0 := hM.off (List.forall_mem_singleton.mpr hb)
  have hall := hM.append hopen (hM.append ht hclose)
  rwa [Nat.zero_add, Nat.add_zero] at hall

theorem Measures.commaSeparated (hM : Measures M f) {α : Type} {text : α → List UInt8}
    {n : α → Nat} {items : List α} (hitems : ∀ a ∈ items, M (text a) (n a)) :
    M (JsonText.commaSeparated (items.map text)) (items.map n).sum := by
  induction items with
  | nil => exact hM.off fun c hc => absurd hc List.not_mem_nil
  | cons a items ih =>
      have ha := hitems a List.mem_cons_self
      have hrest := ih fun b hb => hitems b (List.mem_cons_of_mem _ hb)
      cases items with
      | nil =>
          rw [List.map_singleton, List.map_singleton, List.sum_singleton]
          exact ha
      | cons b items =>
          have hcomma : M [44] 0 := hM.off (List.forall_mem_singleton.mpr (by decide))
          have hall := hM.append ha (hM.append hcomma hrest)
          rwa [Nat.zero_add] at hall

theorem Measures.item (hM : Measures M f) {i : Item} (hi : i.Framed) {n : Nat}
    (hvalue : M i.value n) : M i.text n := by
  have hall := hM.append (hM.blank hi.1) (hM.append hvalue (hM.blank hi.2))
  rwa [Nat.zero_add, Nat.add_zero] at hall

theorem Measures.member (hM : Measures M f) {m : Member} (hm : m.Framed) {name : List UInt8}
    (hname : Spells m.name name) {n : Nat} (hvalue : M m.value n) : M m.text (f name + n) := by
  have hcolon : M [58] 0 := hM.off (List.forall_mem_singleton.mpr (by decide))
  have hall := hM.append (hM.blank hm.before) (hM.append (hM.string hname)
    (hM.append (hM.blank hm.afterName) (hM.append hcolon (hM.append (hM.blank hm.beforeValue)
      (hM.append hvalue (hM.blank hm.afterValue))))))
  rw [Member.text]
  simpa using hall

/-- The measure of a text is the total of its value. -/
theorem Denotes.measured (hM : Measures M f) (ht : Denotes t v) : M t (v.total f) := by
  induction ht with
  | word ht =>
      refine hM.off fun c hc => ?_
      simp only [words, List.mem_cons, List.not_mem_nil, or_false] at ht
      rcases ht with rfl | rfl | rfl
      all_goals
        simp only [List.mem_cons, List.not_mem_nil, or_false] at hc
      · rcases hc with rfl | rfl | rfl | rfl <;> decide
      · rcases hc with rfl | rfl | rfl | rfl | rfl <;> decide
      · rcases hc with rfl | rfl | rfl | rfl <;> decide
  | number ht =>
      refine hM.off fun c hc => ?_
      have hbare := ht.numberText.isBare.1 c hc
      simp [isOff, hbare]
  | string hbody => exact hM.string hbody
  | emptyArray hw => exact hM.between (by decide) (by decide) (hM.blank hw)
  | @array items _ hframed _ ih =>
      refine hM.between (by decide) (by decide) ?_
      rw [Json.total, totalItems_eq, List.map_map]
      exact hM.commaSeparated fun i hi => hM.item (hframed i hi) (ih i hi)
  | emptyObject hw => exact hM.between (by decide) (by decide) (hM.blank hw)
  | @object members _ hframed hname _ fields hfields ih =>
      refine hM.between (by decide) (by decide) ?_
      rw [Json.total, totalFields_eq, ← (hfields.map _).sum_eq, List.map_map]
      exact hM.commaSeparated fun m hm => hM.member (hframed m hm) (hname m hm) (ih m hm)

end JsonText
end Lib
end InventixDB
