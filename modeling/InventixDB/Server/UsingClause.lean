import InventixDB.Server.Prepared
import InventixDB.Sql.Literals

/-!
# UsingClause — which lists of values EXECUTE reads back

The type of a number is decided by the whole rest of the text: a point anywhere behind an integer
makes it a float.  A string ends at the first quote, escaped or not.
-/

namespace InventixDB
namespace Server

open Storage
open Sql

/-! ## Printed lists -/

/-- A value of the clause. -/
inductive UsingLiteral
  | int (value : Int64)
  | bool (value : Bool)
  | null
  | string (data : CStr)

namespace UsingLiteral

/-- The parameter the value stands for. -/
def parameter : UsingLiteral → Parameter
  | .int value => .int value
  | .bool value => .bool value
  | .null => .null
  | .string data => .string data

/-- A byte of a string, with `e` before the quote it stands in. -/
def printByte (quote e : UInt8) (b : UInt8) : List UInt8 :=
  if b = quote then [e, b] else [b]

def print (quote e : UInt8) : UsingLiteral → List UInt8
  | .int value => (CStr.ofInt value.toInt).val
  | .bool value => (CStr.lit (if value then "TRUE" else "FALSE")).val
  | .null => (CStr.lit "NULL").val
  | .string data => quote :: (data.val.flatMap (printByte quote e) ++ [quote])

/-- The bytes of a string; the other values have none of their own. -/
def bytes : UsingLiteral → List UInt8
  | .string data => data.val
  | _ => []

def IsInt : UsingLiteral → Prop
  | .int _ => True
  | _ => False

end UsingLiteral

/-- The values between parentheses, with `sep` between two of them. -/
def usingText (quote e : UInt8) (sep : List UInt8) (values : List UsingLiteral) : List UInt8 :=
  40 :: (sep.intercalate (values.map (UsingLiteral.print quote e)) ++ [41])

/-- No string holds its quote, and no integer stands before a string with a point. -/
def Unambiguous (quote : UInt8) (values : List UsingLiteral) : Prop :=
  (∀ v ∈ values, quote ∉ v.bytes) ∧ values.Pairwise fun v w => v.IsInt → 46 ∉ w.bytes

theorem unambiguous_cons {quote : UInt8} {v : UsingLiteral} {values : List UsingLiteral} :
    Unambiguous quote (v :: values) ↔
      (quote ∉ v.bytes ∧ (v.IsInt → ∀ w ∈ values, 46 ∉ w.bytes)) ∧ Unambiguous quote values := by
  simp only [Unambiguous, List.mem_cons, forall_eq_or_imp, List.pairwise_cons]
  constructor
  · rintro ⟨⟨hv, hvalues⟩, hint, hpairs⟩
    exact ⟨⟨hv, fun h w hw => hint w hw h⟩, hvalues, hpairs⟩
  · rintro ⟨⟨hv, hint⟩, hvalues, hpairs⟩
    exact ⟨⟨hv, hvalues⟩, fun w hw h => hint h w hw, hpairs⟩

/-! ## One value -/

section Value

variable {readFloat : List UInt8 → CStr × List UInt8} {quote e : UInt8} {rest : List UInt8}

/-- The bytes that end a number or a word. -/
def Ends (rest : List UInt8) : Prop :=
  ∀ b ∈ rest.head?, CStr.isDigit b = false

theorem digits_append {ds : List UInt8} (hall : ∀ b ∈ ds, CStr.isDigit b = true)
    (hrest : Ends rest) :
    (ds ++ rest).takeWhile CStr.isDigit = ds ∧ (ds ++ rest).dropWhile CStr.isDigit = rest := by
  rw [List.takeWhile_append_of_pos hall, List.dropWhile_append_of_pos hall]
  cases rest with
  | nil => simp
  | cons b rest => simp [hrest b rfl]

theorem decimal_cons (n : Nat) : ∃ d ds, CStr.decimal n = d :: ds ∧ CStr.isDigit d = true := by
  cases hdecimal : CStr.decimal n with
  | nil => exact absurd hdecimal (CStr.decimal_ne_nil n)
  | cons d ds =>
      exact ⟨d, ds, rfl, CStr.isDigit_of_mem_decimal (hdecimal ▸ List.mem_cons_self)⟩

theorem strtoll_decimal (n : Nat) (hrest : Ends rest) :
    strtoll (CStr.decimal n ++ rest) = (min (n : Int) (2 ^ 63 - 1), rest) := by
  obtain ⟨d, ds, hdecimal, hd⟩ := decimal_cons n
  obtain ⟨hspace, hminus, hplus⟩ := CStr.not_isSpace_of_isDigit hd
  have hbody : (CStr.decimal n ++ rest).dropWhile CStr.isSpace = CStr.decimal n ++ rest := by
    rw [hdecimal, List.cons_append, List.dropWhile_cons_of_neg (by simp [hspace])]
  obtain ⟨htake, hdrop⟩ := digits_append (fun b => CStr.isDigit_of_mem_decimal (n := n)) hrest
  have hhead : ¬ (CStr.decimal n ++ rest).head? = some 45 := by
    rw [hdecimal]
    simpa using hminus
  have hfirst : ∀ c cs, CStr.decimal n ++ rest = c :: cs → c ≠ 45 ∧ c ≠ 43 := by
    intro c cs heq
    rw [hdecimal] at heq
    exact (List.cons.inj heq).1 ▸ ⟨hminus, hplus⟩
  unfold strtoll
  simp only [hbody]
  split
  · next heq => exact absurd rfl (hfirst _ _ heq).1
  · next heq => exact absurd rfl (hfirst _ _ heq).2
  · rw [htake, hdrop, if_neg (CStr.decimal_ne_nil n), if_neg hhead, CStr.digitsValue_decimal]

theorem strtoll_minus (n : Nat) (hrest : Ends rest) :
    strtoll (45 :: (CStr.decimal n ++ rest)) = (max (-(n : Int)) (-2 ^ 63), rest) := by
  have hbody : (45 :: (CStr.decimal n ++ rest)).dropWhile CStr.isSpace =
      45 :: (CStr.decimal n ++ rest) := List.dropWhile_cons_of_neg (by decide)
  obtain ⟨htake, hdrop⟩ := digits_append (fun b => CStr.isDigit_of_mem_decimal (n := n)) hrest
  unfold strtoll
  simp only [hbody, htake, hdrop, List.head?_cons, if_pos]
  rw [if_neg (CStr.decimal_ne_nil n), CStr.digitsValue_decimal]

/-- `strtoll` reads back what `%lld` prints. -/
theorem strtoll_ofInt (value : Int64) (hrest : Ends rest) :
    strtoll ((CStr.ofInt value.toInt).val ++ rest) = (value.toInt, rest) := by
  have hlow := value.le_toInt
  have hhigh := value.toInt_lt
  rw [CStr.val_ofInt]
  by_cases hneg : value.toInt < 0
  · rw [if_pos hneg, List.append_assoc, List.singleton_append, strtoll_minus _ hrest]
    exact congrArg (·, rest) (by omega)
  · rw [if_neg hneg, List.nil_append, strtoll_decimal _ hrest]
    exact congrArg (·, rest) (by omega)

/-- A number starts with its sign or a digit. -/
theorem ofInt_cons (i : Int) :
    ∃ c cs, (CStr.ofInt i).val = c :: cs ∧ (c = 45 ∨ CStr.isDigit c = true) := by
  obtain ⟨d, ds, hdecimal, hd⟩ := decimal_cons i.natAbs
  rw [CStr.val_ofInt, hdecimal]
  by_cases hneg : i < 0
  · rw [if_pos hneg]
    exact ⟨45, d :: ds, rfl, .inl rfl⟩
  · rw [if_neg hneg]
    exact ⟨d, ds, rfl, .inr hd⟩

theorem ne_quote_of_number {c : UInt8} (hc : c = 45 ∨ CStr.isDigit c = true) :
    ¬ (c = 39 ∨ c = 34) := by
  rintro (rfl | rfl) <;> exact absurd hc (by decide)

theorem point_notMem_ofInt (i : Int) : 46 ∉ (CStr.ofInt i).val := by
  rw [CStr.val_ofInt, List.mem_append, not_or]
  refine ⟨by split <;> decide, fun hmem => ?_⟩
  exact absurd (CStr.isDigit_of_mem_decimal hmem) (by decide)

/-- The point that decides the type of an integer is one behind it. -/
theorem usingValue_number (value : Int64) (hrest : Ends rest) :
    usingValue readFloat ((CStr.ofInt value.toInt).val ++ rest) =
      if 46 ∈ rest then
        ((some (.float (readFloat ((CStr.ofInt value.toInt).val ++ rest)).1)),
          (readFloat ((CStr.ofInt value.toInt).val ++ rest)).2)
      else (some (.int value), rest) := by
  obtain ⟨c, cs, hval, hc⟩ := ofInt_cons value.toInt
  have hpoint : 46 ∈ (CStr.ofInt value.toInt).val ++ rest ↔ 46 ∈ rest := by
    simp [point_notMem_ofInt]
  have hread := strtoll_ofInt value hrest
  rw [hval, List.cons_append] at hpoint hread ⊢
  rw [usingValue, if_neg (ne_quote_of_number hc), if_pos hc]
  simp only [hpoint, hread, Int64.ofInt_toInt]

/-- A string ends at its first quote. -/
theorem usingValue_quote (hquote : quote ∈ quotes) {bs : List UInt8} (hbs : quote ∉ bs) :
    usingValue readFloat (quote :: (bs ++ quote :: rest)) =
      (some (.string (CStr.ofBytes bs)), rest) := by
  have hopen : quote = 39 ∨ quote = 34 := (mem_quotes.mp hquote).symm
  have hall : ∀ b ∈ bs, decide (b ≠ quote) = true := by
    intro b hb
    have hne : b ≠ quote := fun heq => hbs (heq ▸ hb)
    simpa using hne
  rw [usingValue, if_pos hopen, List.takeWhile_append_of_pos hall,
    List.dropWhile_append_of_pos hall]
  simp

theorem printByte_of_notMem {bs : List UInt8} (hbs : quote ∉ bs) :
    bs.flatMap (UsingLiteral.printByte quote e) = bs := by
  refine (List.flatMap_congr fun b hb => ?_).trans (List.flatMap_singleton' bs)
  have hne : b ≠ quote := fun heq => hbs (heq ▸ hb)
  rw [UsingLiteral.printByte, if_neg hne]

/-- What is read of a string with a quote in it is another string. -/
theorem usingValue_quote_ne (hquote : quote ∈ quotes) (he : e = 92 ∨ e = quote) {data : CStr}
    (hdata : quote ∈ data.val) :
    (usingValue readFloat ((UsingLiteral.string data).print quote e ++ rest)).1 ≠
      some (.string data) := by
  obtain ⟨pre, post, hval, hpre⟩ := List.eq_append_cons_of_mem hdata
  have hzero : 0 ∉ pre := fun hmem => data.property (hval ▸ List.mem_append_left _ hmem)
  have hprint : (UsingLiteral.string data).print quote e ++ rest = quote :: (pre ++
      e :: quote :: (post.flatMap (UsingLiteral.printByte quote e) ++ quote :: rest)) := by
    simp only [UsingLiteral.print, hval, List.flatMap_append, List.flatMap_cons,
      printByte_of_notMem hpre]
    simp [UsingLiteral.printByte]
  rw [hprint]
  rcases he with rfl | rfl
  · -- the backslash stands where the quote should
    have hslash : quote ∉ pre ++ [92] := by
      simp [hpre, (ne_of_mem_quotes hquote).2.symm]
    rw [show pre ++ 92 :: quote :: (post.flatMap (UsingLiteral.printByte quote 92) ++
        quote :: rest) = (pre ++ [92]) ++ quote ::
          (post.flatMap (UsingLiteral.printByte quote 92) ++ quote :: rest) by simp,
      usingValue_quote hquote hslash]
    intro heq
    have hbytes := congrArg Subtype.val (Parameter.string.inj (Option.some.inj heq))
    rw [CStr.ofBytes_of_notMem (by simp [hzero]), hval, List.append_cancel_left_eq] at hbytes
    exact (ne_of_mem_quotes hquote).2 (List.cons.inj hbytes).1
  · -- the string ends where the quote should stand
    rw [usingValue_quote hquote hpre]
    intro heq
    have hbytes := congrArg Subtype.val (Parameter.string.inj (Option.some.inj heq))
    rw [CStr.ofBytes_of_notMem hzero, hval] at hbytes
    exact absurd hbytes (by simp)

theorem null_val : (CStr.lit "NULL").val = [78, 85, 76, 76] := by decide

theorem true_val : (CStr.lit "TRUE").val = [84, 82, 85, 69] := by decide

theorem false_val : (CStr.lit "FALSE").val = [70, 65, 76, 83, 69] := by decide

theorem usingValue_null :
    usingValue readFloat (UsingLiteral.null.print quote e ++ rest) = (some .null, rest) := by
  simp [usingValue, UsingLiteral.print, startsWithIgnoringCase, null_val, CStr.isDigit,
    CStr.lowerByte]

theorem usingValue_bool (value : Bool) :
    usingValue readFloat ((UsingLiteral.bool value).print quote e ++ rest) =
      (some (.bool value), rest) := by
  cases value with
  | true =>
      simp [usingValue, UsingLiteral.print, startsWithIgnoringCase, null_val, true_val,
        CStr.isDigit, CStr.lowerByte]
  | false =>
      simp [usingValue, UsingLiteral.print, startsWithIgnoringCase, null_val, true_val, false_val,
        CStr.isDigit, CStr.lowerByte]

/-- When a value is read back, whatever stands behind it. -/
theorem usingValue_print (hquote : quote ∈ quotes) {v : UsingLiteral} (hv : quote ∉ v.bytes)
    (hint : v.IsInt → 46 ∉ rest) (hrest : Ends rest) :
    usingValue readFloat (v.print quote e ++ rest) = (some v.parameter, rest) := by
  cases v with
  | int value =>
      rw [UsingLiteral.print, usingValue_number value hrest, if_neg (hint trivial)]
      rfl
  | bool value => exact usingValue_bool value
  | null => exact usingValue_null
  | string data =>
      have hdata : quote ∉ data.val := hv
      simp only [UsingLiteral.print, printByte_of_notMem hdata, List.cons_append,
        List.append_assoc, List.nil_append, usingValue_quote hquote hdata, CStr.ofBytes_val]
      rfl

theorem of_usingValue_print (hquote : quote ∈ quotes) (he : e = 92 ∨ e = quote)
    (hrest : Ends rest) {v : UsingLiteral}
    (hread : (usingValue readFloat (v.print quote e ++ rest)).1 = some v.parameter) :
    quote ∉ v.bytes ∧ (v.IsInt → 46 ∉ rest) := by
  cases v with
  | int value =>
      refine ⟨List.not_mem_nil, fun _ hpoint => ?_⟩
      rw [UsingLiteral.print, usingValue_number value hrest, if_pos hpoint] at hread
      cases hread
  | bool value => exact ⟨List.not_mem_nil, False.elim⟩
  | null => exact ⟨List.not_mem_nil, False.elim⟩
  | string data =>
      exact ⟨fun hdata => usingValue_quote_ne hquote he hdata hread, False.elim⟩

/-- A value starts with a byte that no loop skips. -/
theorem print_cons (hquote : quote ∈ quotes) (v : UsingLiteral) :
    ∃ c cs, v.print quote e = c :: cs ∧
      CStr.isSpace c = false ∧ c ≠ 40 ∧ c ≠ 41 ∧ c ≠ 44 := by
  cases v with
  | int value =>
      obtain ⟨c, cs, hval, hc⟩ := ofInt_cons value.toInt
      refine ⟨c, cs, hval, ?_⟩
      rcases hc with rfl | hc
      · decide
      · refine ⟨(CStr.not_isSpace_of_isDigit hc).1, ?_, ?_, ?_⟩ <;>
          (rintro rfl; exact absurd hc (by decide))
  | bool value =>
      cases value with
      | true => exact ⟨84, _, true_val, by decide⟩
      | false => exact ⟨70, _, false_val, by decide⟩
  | null => exact ⟨78, _, null_val, by decide⟩
  | string data =>
      refine ⟨quote, _, rfl, ?_⟩
      rcases mem_quotes.mp hquote with rfl | rfl <;> decide

theorem point_mem_print (hquote : quote ∈ quotes) (he : e = 92 ∨ e = quote) (v : UsingLiteral) :
    46 ∈ v.print quote e ↔ 46 ∈ v.bytes := by
  have hpoint : (46 : UInt8) ≠ quote := by
    rintro rfl
    exact absurd hquote (by decide)
  have hesc : (46 : UInt8) ≠ e := by
    rcases he with rfl | rfl
    · decide
    · exact hpoint
  cases v with
  | int value => simp [UsingLiteral.print, UsingLiteral.bytes, point_notMem_ofInt]
  | bool value => cases value <;> simp [UsingLiteral.print, UsingLiteral.bytes, true_val, false_val]
  | null => simp [UsingLiteral.print, UsingLiteral.bytes, null_val]
  | string data =>
      have hbyte : ∀ b, 46 ∈ UsingLiteral.printByte quote e b ↔ b = 46 := by
        intro b
        unfold UsingLiteral.printByte
        split_ifs with hb
        · simp [hb, hpoint, hesc, hpoint.symm]
        · simp [eq_comm]
      simp [UsingLiteral.print, UsingLiteral.bytes, List.mem_flatMap, hbyte, hpoint]

end Value

/-! ## The list -/

section List

variable {readFloat : List UInt8 → CStr × List UInt8} {quote e : UInt8} {spaces : List UInt8}

/-- The text from a value on. -/
def usingRest (quote e : UInt8) (sep : List UInt8) (values : List UsingLiteral) : List UInt8 :=
  sep.intercalate (values.map (UsingLiteral.print quote e)) ++ [41]

/-- The text behind a value. -/
def usingAfter (quote e : UInt8) (sep : List UInt8) (values : List UsingLiteral) : List UInt8 :=
  if values = [] then [41] else sep ++ usingRest quote e sep values

theorem usingRest_cons (sep : List UInt8) (v : UsingLiteral) (values : List UsingLiteral) :
    usingRest quote e sep (v :: values) = v.print quote e ++ usingAfter quote e sep values := by
  cases values with
  | nil => simp [usingRest, usingAfter]
  | cons w values => simp [usingRest, usingAfter, List.append_assoc]

theorem ends_usingAfter (values : List UsingLiteral) :
    Ends (usingAfter quote e (44 :: spaces) values) := by
  unfold usingAfter
  split
  · simp [Ends, CStr.isDigit]
  · simp [Ends, CStr.isDigit]

theorem point_mem_usingAfter (hquote : quote ∈ quotes) (he : e = 92 ∨ e = quote)
    (hspaces : ∀ b ∈ spaces, CStr.isSpace b = true) (values : List UsingLiteral) :
    46 ∈ usingAfter quote e (44 :: spaces) values ↔ ∃ w ∈ values, 46 ∈ w.bytes := by
  have hsep : 46 ∉ 44 :: spaces := by
    intro hmem
    rcases List.mem_cons.mp hmem with h | h
    · exact absurd h (by decide)
    · exact absurd (hspaces 46 h) (by decide)
  induction values with
  | nil => simp [usingAfter]
  | cons w values ih =>
      rw [usingAfter, if_neg (List.cons_ne_nil _ _), usingRest_cons]
      simp only [List.mem_append, ih, point_mem_print hquote he]
      simp [hsep]

/-- The loop comes to the next value. -/
theorem dropWhile_usingAfter (hquote : quote ∈ quotes)
    (hspaces : ∀ b ∈ spaces, CStr.isSpace b = true) (values : List UsingLiteral) :
    (usingAfter quote e (44 :: spaces) values).dropWhile (fun b => CStr.isSpace b || b == 44) =
      usingRest quote e (44 :: spaces) values := by
  cases values with
  | nil => rfl
  | cons w values =>
      obtain ⟨c, cs, hprint, hspace, _, _, hcomma⟩ := print_cons (e := e) hquote w
      have hall : ∀ b ∈ 44 :: spaces, (CStr.isSpace b || b == 44) = true := by
        intro b hb
        rcases List.mem_cons.mp hb with rfl | hb
        · rfl
        · rw [hspaces b hb, Bool.true_or]
      rw [usingAfter, if_neg (List.cons_ne_nil _ _), List.dropWhile_append_of_pos hall,
        usingRest_cons, hprint, List.cons_append, List.dropWhile_cons_of_neg]
      simp [hspace, hcomma]

/-- One round reads one value. -/
theorem usingValues_step (hquote : quote ∈ quotes) (room : Nat) (v : UsingLiteral)
    (values : List UsingLiteral) :
    let value := usingValue readFloat (usingRest quote e (44 :: spaces) (v :: values))
    usingValues readFloat (room + 1) (usingRest quote e (44 :: spaces) (v :: values)) =
      value.1 ::
        usingValues readFloat room (value.2.dropWhile fun b => CStr.isSpace b || b == 44) := by
  obtain ⟨c, cs, hprint, hspace, _, hclose, _⟩ := print_cons (e := e) hquote v
  have hrest : usingRest quote e (44 :: spaces) (v :: values) =
      c :: (cs ++ usingAfter quote e (44 :: spaces) values) := by
    rw [usingRest_cons, hprint, List.cons_append]
  have hskip : (usingRest quote e (44 :: spaces) (v :: values)).dropWhile CStr.isSpace =
      usingRest quote e (44 :: spaces) (v :: values) := by
    rw [hrest, List.dropWhile_cons_of_neg (by simp [hspace])]
  have hmore : ¬ ((usingRest quote e (44 :: spaces) (v :: values)).head? = none ∨
      (usingRest quote e (44 :: spaces) (v :: values)).head? = some 41) := by
    rw [hrest]
    simpa using hclose
  rw [usingValues, if_neg hmore, hskip, if_neg hmore]

/-- The rounds read the list back exactly when no value is ambiguous. -/
theorem usingValues_iff (hquote : quote ∈ quotes) (he : e = 92 ∨ e = quote)
    (hspaces : ∀ b ∈ spaces, CStr.isSpace b = true) {values : List UsingLiteral} {room : Nat}
    (hroom : values.length ≤ room) :
    usingValues readFloat room (usingRest quote e (44 :: spaces) values) =
        values.map (fun v => some v.parameter) ↔
      Unambiguous quote values := by
  induction values generalizing room with
  | nil =>
      refine iff_of_true ?_ ⟨by simp, List.Pairwise.nil⟩
      cases room with
      | zero => rfl
      | succ room => simp [usingRest, usingValues]
  | cons v values ih =>
      obtain ⟨room, rfl⟩ : ∃ n, room = n + 1 := Nat.exists_eq_add_one.mpr (by simp at hroom; omega)
      have hends : Ends (usingAfter quote e (44 :: spaces) values) := ends_usingAfter values
      have hpoint := point_mem_usingAfter hquote he hspaces values
      rw [usingValues_step hquote, usingRest_cons, List.map_cons, unambiguous_cons]
      constructor
      · intro heq
        obtain ⟨hhead, htail⟩ := List.cons.inj heq
        obtain ⟨hv, hint⟩ := of_usingValue_print hquote he hends hhead
        rw [usingValue_print hquote hv hint hends, dropWhile_usingAfter hquote hspaces,
          ih (by simpa using hroom)] at htail
        refine ⟨⟨hv, fun h w hw hmem => hint h (hpoint.mpr ⟨w, hw, hmem⟩)⟩, htail⟩
      · rintro ⟨⟨hv, hint⟩, htail⟩
        have hrest : v.IsInt → 46 ∉ usingAfter quote e (44 :: spaces) values := by
          intro h hmem
          obtain ⟨w, hw, hbytes⟩ := hpoint.mp hmem
          exact hint h w hw hbytes
        rw [usingValue_print hquote hv hrest hends, dropWhile_usingAfter hquote hspaces,
          (ih (by simpa using hroom)).mpr htail]

theorem zero_notMem_print (hquote : quote ∈ quotes) (he : e = 92 ∨ e = quote)
    (v : UsingLiteral) : 0 ∉ v.print quote e := by
  cases v with
  | int value => exact (CStr.ofInt value.toInt).property
  | bool value => exact (CStr.lit _).property
  | null => exact (CStr.lit "NULL").property
  | string data =>
      have hzero := (ne_of_mem_quotes hquote).1
      have hesc : 0 ≠ e := by
        rcases he with rfl | rfl
        · decide
        · exact hzero
      intro hmem
      rcases List.mem_cons.mp hmem with h | h
      · exact hzero h
      rcases List.mem_append.mp h with h | h
      · obtain ⟨b, hb, hbyte⟩ := List.mem_flatMap.mp h
        have hb0 : 0 ≠ b := fun heq => data.property (heq ▸ hb)
        unfold UsingLiteral.printByte at hbyte
        split at hbyte
        · simp [hesc, hb0] at hbyte
        · simp [hb0] at hbyte
      · exact hzero (List.mem_singleton.mp h)

theorem zero_notMem_usingRest (hquote : quote ∈ quotes) (he : e = 92 ∨ e = quote)
    (hspaces : ∀ b ∈ spaces, CStr.isSpace b = true) (values : List UsingLiteral) :
    0 ∉ usingRest quote e (44 :: spaces) values := by
  have hsep : 0 ∉ 44 :: spaces := by
    intro hmem
    rcases List.mem_cons.mp hmem with h | h
    · exact absurd h (by decide)
    · exact absurd (hspaces 0 h) (by decide)
  induction values with
  | nil => simp [usingRest]
  | cons v values ih =>
      rw [usingRest_cons, usingAfter]
      split
      · simp [zero_notMem_print hquote he v]
      · simp only [List.mem_append, not_or]
        exact ⟨zero_notMem_print hquote he v, hsep, ih⟩

/-- A printed list is read back, value for value, exactly when no string holds its quote and no
integer stands before a string with a point. -/
theorem parseUsingClause_printed_iff (readFloat : List UInt8 → CStr × List UInt8)
    (hquote : quote ∈ quotes) (he : e = 92 ∨ e = quote)
    (hspaces : ∀ b ∈ spaces, CStr.isSpace b = true) {maxParams : Nat}
    {values : List UsingLiteral} (hroom : values.length ≤ maxParams) :
    parseUsingClause readFloat maxParams
        (CStr.ofBytes (usingText quote e (44 :: spaces) values)) =
        values.map (fun v => some v.parameter) ↔
      Unambiguous quote values := by
  have hzero := zero_notMem_usingRest hquote he hspaces values
  have hval : (CStr.ofBytes (usingText quote e (44 :: spaces) values)).val =
      40 :: usingRest quote e (44 :: spaces) values :=
    CStr.ofBytes_of_notMem (List.not_mem_cons_of_ne_of_not_mem (by decide) hzero)
  have hskip : (40 :: usingRest quote e (44 :: spaces) values).dropWhile
      (fun b => CStr.isSpace b || b == 40) = usingRest quote e (44 :: spaces) values := by
    rw [List.dropWhile_cons_of_pos (by decide)]
    cases values with
    | nil => rfl
    | cons v values =>
        obtain ⟨c, cs, hprint, hspace, hopen, _, _⟩ := print_cons (e := e) hquote v
        rw [usingRest_cons, hprint, List.cons_append, List.dropWhile_cons_of_neg]
        simp [hspace, hopen]
  rw [parseUsingClause, hval, hskip, usingValues_iff hquote he hspaces hroom]

/-- `('a.b', 1)` -/
theorem parseUsingClause_printed_point_first :
    parseUsingClause (fun p => (CStr.lit "1", p.drop 1)) 32
        (CStr.ofBytes (usingText 39 92 [44, 32] [.string (CStr.lit "a.b"), .int 1])) =
        [UsingLiteral.string (CStr.lit "a.b"), .int 1].map (fun v => some v.parameter) ↔
      Unambiguous 39 [.string (CStr.lit "a.b"), .int 1] :=
  parseUsingClause_printed_iff _ (by decide) (.inl rfl) (List.forall_mem_singleton.mpr rfl)
    (by decide)

/-- In `(1, 'a.b')` the point makes the integer a float. -/
theorem parseUsingClause_integer_before_point :
    ¬ parseUsingClause (fun p => (CStr.lit "1", p.drop 1)) 32
        (CStr.ofBytes (usingText 39 92 [44, 32] [.int 1, .string (CStr.lit "a.b")])) =
      [UsingLiteral.int 1, .string (CStr.lit "a.b")].map (fun v => some v.parameter) := by
  decide

end List

end Server
end InventixDB
