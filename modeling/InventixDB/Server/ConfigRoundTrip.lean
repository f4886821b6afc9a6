import InventixDB.Server.Config
import Mathlib.Order.Fin.Basic

/-!
# ConfigRoundTrip — what a saved configuration loads as

Each line that is saved is read back as the setting it was printed from.  What no line is written
for comes back as its default.
-/

namespace InventixDB
namespace Server

open Storage

/-! ## White space -/

/-- Neither end is white space. -/
def Trimmed (bs : List UInt8) : Prop :=
  (∀ c ∈ bs.head?, CStr.isSpace c = false) ∧ ∀ c ∈ bs.getLast?, CStr.isSpace c = false

theorem trimmed_nil : Trimmed [] :=
  ⟨fun _ h => (Option.not_mem_none _ h).elim, fun _ h => (Option.not_mem_none _ h).elim⟩

theorem trimmed_singleton {b : UInt8} (hb : CStr.isSpace b = false) : Trimmed [b] := by
  constructor
  · rintro c hc
    rw [← Option.some_inj.mp hc]
    exact hb
  · rintro c hc
    rw [← Option.some_inj.mp hc]
    exact hb

theorem dropWhile_of_head {bs : List UInt8} (hhead : ∀ c ∈ bs.head?, CStr.isSpace c = false) :
    bs.dropWhile CStr.isSpace = bs := by
  cases bs with
  | nil => rfl
  | cons c bs => exact List.dropWhile_cons_of_neg (by rw [hhead c rfl]; exact Bool.false_ne_true)

/-- White space in front and behind is taken off. -/
theorem trimBytes_append {bs before behind : List UInt8} (hbs : Trimmed bs)
    (hbefore : ∀ c ∈ before, CStr.isSpace c = true)
    (hbehind : ∀ c ∈ behind, CStr.isSpace c = true) :
    trimBytes (before ++ bs ++ behind) = bs := by
  have hbehind' : ∀ c ∈ behind.reverse, CStr.isSpace c = true :=
    fun c hc => hbehind c (List.mem_reverse.mp hc)
  rw [trimBytes, List.append_assoc, List.dropWhile_append_of_pos hbefore]
  cases bs with
  | nil =>
      have hnil : behind.dropWhile CStr.isSpace = [] := List.dropWhile_eq_nil_iff.mpr hbehind
      rw [List.nil_append, hnil]
      rfl
  | cons c bs =>
      have hrev : ∀ d ∈ (c :: bs).reverse.head?, CStr.isSpace d = false := by
        rw [List.head?_reverse]
        exact hbs.2
      have hfront : ∀ d ∈ (c :: bs ++ behind).head?, CStr.isSpace d = false := hbs.1
      rw [dropWhile_of_head hfront, List.reverse_append, List.dropWhile_append_of_pos hbehind',
        dropWhile_of_head hrev, List.reverse_reverse]

theorem Trimmed.append {a b : List UInt8} (ha : Trimmed a) (hb : Trimmed b) (hane : a ≠ [])
    (hbne : b ≠ []) (mid : List UInt8) : Trimmed (a ++ mid ++ b) := by
  constructor
  · intro c hc
    rw [List.append_assoc, List.head?_append_of_ne_nil a hane] at hc
    exact ha.1 c hc
  · intro c hc
    rw [List.getLast?_append_of_ne_nil _ hbne] at hc
    exact hb.2 c hc

/-! ## Values -/

namespace Text

/-- The bytes as a text, up to the first that no text has. -/
def cut (bs : List UInt8) : Text where
  bytes := bs.takeWhile fun b => b ≠ 0 && b ≠ 10
  noNul := fun h => by simpa using List.mem_takeWhile_imp h
  noNewline := fun h => by simpa using List.mem_takeWhile_imp h

theorem cut_bytes {bs : List UInt8} (hnul : 0 ∉ bs) (hnewline : 10 ∉ bs) : (cut bs).bytes = bs := by
  refine List.takeWhile_eq_self_iff.mpr fun b hb => ?_
  have h0 : b ≠ 0 := fun h => hnul (h ▸ hb)
  have h10 : b ≠ 10 := fun h => hnewline (h ▸ hb)
  simp [h0, h10]

end Text

/-- What a saved value is read back as. -/
def Saved.value : Saved → Text
  | .int i => .cut (CStr.ofInt i.toInt).val
  | .quoted t => t
  | .bool b => .cut (CStr.lit (if b then "true" else "false")).val
  | .word s => .cut (CStr.lit s).val

theorem newline_notMem_ofInt (i : Int) : 10 ∉ (CStr.ofInt i).val := by
  rw [CStr.val_ofInt, List.mem_append, not_or]
  refine ⟨by split <;> decide, fun hmem => ?_⟩
  exact absurd (CStr.isDigit_of_mem_decimal hmem) (by decide)

theorem Saved.value_int_bytes (i : Int32) :
    (Saved.int i).value.bytes = (CStr.ofInt i.toInt).val :=
  Text.cut_bytes (CStr.ofInt i.toInt).property (newline_notMem_ofInt i.toInt)

theorem atoi_ofInt_neg {n : Nat} (hpos : 0 < n) (hn : n ≤ 2 ^ 31) :
    CStr.atoi (CStr.ofInt (-(n : Int))) = -(n : Int) := by
  have hval : (CStr.ofInt (-(n : Int))).val = 45 :: CStr.decimal n := by
    rw [CStr.val_ofInt, if_pos (by omega), Int.natAbs_neg, Int.natAbs_natCast]
    rfl
  have hbody : (CStr.ofInt (-(n : Int))).val.dropWhile CStr.isSpace = 45 :: CStr.decimal n := by
    rw [hval]
    rfl
  have hdigits : (CStr.decimal n).takeWhile CStr.isDigit = CStr.decimal n :=
    List.takeWhile_eq_self_iff.mpr fun _ => CStr.isDigit_of_mem_decimal
  have hvalue := CStr.digitsValue_decimal n
  unfold CStr.atoi
  rw [hbody]
  change (max (-CStr.digitsValue ((CStr.decimal n).takeWhile CStr.isDigit)) (-2 ^ 63)).bmod
    (2 ^ 32) = _
  rw [hdigits, hvalue, max_eq_left (by omega)]
  exact Int.bmod_eq_of_le (by omega) (by omega)

theorem atoi_ofInt {i : Int} (hlow : -2 ^ 31 ≤ i) (hhigh : i < 2 ^ 31) :
    CStr.atoi (CStr.ofInt i) = i := by
  rcases Int.lt_or_le i 0 with hneg | hnonneg
  · obtain ⟨n, rfl⟩ : ∃ n : Nat, i = -(n : Int) := ⟨i.natAbs, by omega⟩
    exact atoi_ofInt_neg (by omega) (by omega)
  · obtain ⟨n, rfl⟩ := Int.eq_ofNat_of_zero_le hnonneg
    exact CStr.atoi_ofInt (by omega)

/-- `atoi` reads back what `%d` prints of an `int`. -/
theorem int_value (i : Int32) : (Saved.int i).value.int = i := by
  have hcstr : (Saved.int i).value.cstr = CStr.ofInt i.toInt :=
    Subtype.ext (Saved.value_int_bytes i)
  rw [Text.int, hcstr, atoi_ofInt (Int32.le_toInt i) (Int32.toInt_lt i), Int32.ofInt_toInt]

theorem parseBool_value (b : Bool) : parseBool (Saved.bool b).value = b := by
  cases b with
  | true => decide
  | false => decide

theorem strncpy_value {size : Nat} (hsize : 0 < size) (f : Field size) :
    (Saved.quoted f.toText).value.strncpy hsize = f := by
  ext1
  exact List.take_of_length_le (Nat.le_sub_one_of_lt f.fits)

theorem parseEviction_value (e old : EvictionPolicy) :
    parseEnum evictionNames (Saved.word (evictionName e)).value old = e := by
  cases e with
  | lru => rfl
  | clock => rfl
  | lfu => rfl

theorem parsePartition_value (s old : PartitionStrategy) :
    parseEnum partitionNames (Saved.word (partitionName s)).value old = s := by
  cases s with
  | hash => rfl
  | range => rfl

/-! ## Lines that are read back -/

/-- A small letter or an underscore. -/
def isKeyByte (b : UInt8) : Bool :=
  b == 95 || (97 ≤ b && b ≤ 122)

/-- A byte of a word: also a digit or a capital letter. -/
def isSettingByte (b : UInt8) : Bool :=
  isKeyByte b || (48 ≤ b && b ≤ 57) || (65 ≤ b && b ≤ 90)

/-- A key is a short word of small letters. -/
def keyOk (key : String) : Bool :=
  (CStr.lit key).val ≠ [] && (CStr.lit key).val.length ≤ 64 && (CStr.lit key).val.all isKeyByte

def wordOk (s : String) : Bool :=
  (CStr.lit s).val ≠ [] && (CStr.lit s).val.length ≤ 64 && (CStr.lit s).val.all isSettingByte

def Saved.Fits : Saved → Prop
  | .int _ => True
  | .quoted t => t.bytes.length < 256
  | .bool _ => True
  | .word s => wordOk s = true

theorem ne_of_isKeyByte {b d : UInt8} (hb : isKeyByte b = true) (hd : isKeyByte d = false) :
    b ≠ d := by
  rintro rfl
  rw [hb] at hd
  cases hd

theorem isSettingByte_of_isKeyByte {b : UInt8} (hb : isKeyByte b = true) :
    isSettingByte b = true := by
  rw [isSettingByte, hb]
  rfl

theorem isSpace_of_isSettingByte {b : UInt8} (hb : isSettingByte b = true) :
    CStr.isSpace b = false := by
  rw [← Bool.not_eq_true]
  intro hspace
  simp only [isSettingByte, isKeyByte, CStr.isSpace, Bool.or_eq_true, Bool.and_eq_true, beq_iff_eq,
    decide_eq_true_eq, UInt8.le_iff_toNat_le, ← UInt8.toNat_inj, UInt8.reduceToNat] at hb hspace
  omega

theorem lowerByte_of_isKeyByte {b : UInt8} (hb : isKeyByte b = true) : CStr.lowerByte b = b := by
  refine if_neg ?_
  intro hupper
  simp only [isKeyByte, Bool.or_eq_true, Bool.and_eq_true, beq_iff_eq, decide_eq_true_eq,
    UInt8.le_iff_toNat_le, ← UInt8.toNat_inj, UInt8.reduceToNat] at hb hupper
  omega

theorem Trimmed.of_forall {bs : List UInt8} (hbs : ∀ b ∈ bs, CStr.isSpace b = false) :
    Trimmed bs :=
  ⟨fun c hc => hbs c (List.mem_of_mem_head? hc), fun c hc => hbs c (List.mem_of_mem_getLast? hc)⟩

/-! ## One line -/

/-- What a saved line does to the configuration being loaded. -/
def applyLine (l : Loading) : ConfigLine → Loading
  | .comment _ => l
  | .blank => l
  | .header name => { l with currentSection := name }
  | .setting key value =>
      { l with
        config := parseConfigLine l.config l.currentSection (CStr.lit key).val value.value }

/-- A point, or a byte of a word that is no capital letter. -/
def isNameByte (b : UInt8) : Bool :=
  b == 46 || isSettingByte b && CStr.lowerByte b == b

/-- The name of a section. -/
def nameOk (name : CStr) : Bool :=
  name.val.length ≤ 63 && name.val.all isNameByte

def commentOk (text : String) : Bool :=
  (CStr.lit text).val.head? == some 35 && (CStr.lit text).val.length ≤ 255 &&
    (CStr.lit text).val.all (· != 10) &&
    (CStr.lit text).val.getLast?.all fun c => !CStr.isSpace c

/-- The lines that are read back as they were meant. -/
def ConfigLine.Ok : ConfigLine → Prop
  | .comment text => commentOk text = true
  | .blank => True
  | .header name => nameOk name = true
  | .setting key value => keyOk key = true ∧ value.Fits

/-- A byte of a number or a word. -/
def isPlainByte (b : UInt8) : Bool :=
  b == 45 || isSettingByte b

theorem isSpace_of_isPlainByte {b : UInt8} (hb : isPlainByte b = true) :
    CStr.isSpace b = false := by
  rcases Bool.or_eq_true_iff.mp hb with hminus | hword
  · rw [eq_of_beq hminus]
    rfl
  · exact isSpace_of_isSettingByte hword

theorem ne_of_isPlainByte {b d : UInt8} (hb : isPlainByte b = true) (hd : isPlainByte d = false) :
    b ≠ d := by
  rintro rfl
  rw [hb] at hd
  cases hd

theorem isPlainByte_of_isDigit {b : UInt8} (hb : CStr.isDigit b = true) : isPlainByte b = true := by
  rw [CStr.isDigit] at hb
  rw [isPlainByte, isSettingByte, hb, Bool.or_true, Bool.true_or, Bool.or_true]

theorem length_ofInt_le (i : Int32) : (CStr.ofInt i.toInt).val.length ≤ 11 := by
  have hlow := Int32.le_toInt i
  have hhigh := Int32.toInt_lt i
  have hdigits : (CStr.decimal i.toInt.natAbs).length ≤ 10 := by
    rw [CStr.decimal, List.length_reverse]
    exact CStr.length_digitsRev_le (k := 9) (by omega)
  rw [CStr.val_ofInt, List.length_append]
  split
  · exact Nat.add_le_add (Nat.le_refl 1) hdigits
  · exact Nat.le_trans (by simpa using hdigits) (by decide)

/-- What a value is made of that is not quoted. -/
structure PlainValue (v : Saved) : Prop where
  value : v.value = Text.cut v.bytes
  ne_nil : v.bytes ≠ []
  length : v.bytes.length ≤ 64
  plain : ∀ b ∈ v.bytes, isPlainByte b = true

theorem plain_word {s : String} (hs : wordOk s = true) : PlainValue (.word s) := by
  simp only [wordOk, Bool.and_eq_true, decide_eq_true_eq, List.all_eq_true] at hs
  refine ⟨rfl, hs.1.1, hs.1.2, fun b hb => ?_⟩
  rw [isPlainByte, hs.2 b hb, Bool.or_true]

theorem plain_int (i : Int32) : PlainValue (.int i) where
  value := rfl
  ne_nil := by
    have hne := CStr.decimal_ne_nil i.toInt.natAbs
    simp [Saved.bytes, CStr.val_ofInt, hne]
  length := (length_ofInt_le i).trans (by decide)
  plain := by
    intro b hb
    rw [Saved.bytes, CStr.val_ofInt, List.mem_append] at hb
    rcases hb with hsign | hdigit
    · split at hsign
      · rw [List.mem_singleton.mp hsign]
        rfl
      · cases hsign
    · exact isPlainByte_of_isDigit (CStr.isDigit_of_mem_decimal hdigit)

theorem Saved.plain_or_quoted {v : Saved} (hv : v.Fits) : PlainValue v ∨ ∃ t, v = .quoted t := by
  cases v with
  | int i => exact .inl (plain_int i)
  | quoted t => exact .inr ⟨t, rfl⟩
  | bool b =>
      have hword : PlainValue (.word (if b then "true" else "false")) := by
        cases b with
        | true => exact plain_word (by decide)
        | false => exact plain_word (by decide)
      exact .inl ⟨hword.value, hword.ne_nil, hword.length, hword.plain⟩
  | word s => exact .inl (plain_word hv)

/-- The bytes of a value: neither NUL nor newline nor white space at an end, and not too many. -/
structure Printable (bs : List UInt8) : Prop where
  ne_nil : bs ≠ []
  trimmed : Trimmed bs
  noNul : 0 ∉ bs
  noNewline : 10 ∉ bs
  length : bs.length ≤ 257

theorem Saved.printable {v : Saved} (hv : v.Fits) : Printable v.bytes := by
  rcases Saved.plain_or_quoted hv with hplain | ⟨t, rfl⟩
  · refine ⟨hplain.ne_nil, Trimmed.of_forall fun b hb => isSpace_of_isPlainByte (hplain.plain b hb),
      fun hmem => ?_, fun hmem => ?_, hplain.length.trans (by decide)⟩
    · exact ne_of_isPlainByte (hplain.plain 0 hmem) (by decide) rfl
    · exact ne_of_isPlainByte (hplain.plain 10 hmem) (by decide) rfl
  · have hquote : Trimmed [34] := trimmed_singleton rfl
    refine ⟨by simp [Saved.bytes], hquote.append hquote (by simp) (by simp) t.bytes, ?_, ?_, ?_⟩
    · simpa [Saved.bytes] using t.noNul
    · simpa [Saved.bytes] using t.noNewline
    · have hlen : t.bytes.length < 256 := hv
      simp only [Saved.bytes, List.length_append, List.length_singleton]
      omega

theorem unquote_of_head {t : Text} (hhead : ∀ c ∈ t.bytes.head?, c ≠ 34 ∧ c ≠ 39) :
    t.unquote = t := by
  unfold Text.unquote
  split
  · next c hc => exact if_neg (not_or.mpr (hhead c hc))
  · rfl

theorem unquote_quoted {t u : Text} (ht : t.bytes = [34] ++ u.bytes ++ [34]) : t.unquote = u := by
  ext1
  have htail : t.bytes.tail = u.bytes ++ [34] := by
    rw [ht]
    rfl
  have hhead : t.bytes.head? = some 34 := by
    rw [ht]
    rfl
  unfold Text.unquote
  simp only [hhead, htail]
  simp [Text.restrict]

theorem Saved.unquote_value {v : Saved} (hv : v.Fits) {t : Text} (ht : t.bytes = v.bytes) :
    t.unquote = v.value := by
  have hbytes := Saved.printable hv
  rcases Saved.plain_or_quoted hv with hplain | ⟨u, rfl⟩
  · have hhead : ∀ c ∈ t.bytes.head?, c ≠ 34 ∧ c ≠ 39 := by
      intro c hc
      have hc' := hplain.plain c (ht ▸ List.mem_of_mem_head? hc)
      exact ⟨ne_of_isPlainByte hc' (by decide), ne_of_isPlainByte hc' (by decide)⟩
    rw [unquote_of_head hhead, hplain.value]
    exact Text.ext (ht.trans (Text.cut_bytes hbytes.noNul hbytes.noNewline).symm)
  · exact unquote_quoted ht

/-- The newline is all that is trimmed off a line that was saved. -/
theorem trimWhitespace_raw {bs : List UInt8} (hbs : Trimmed bs) (hnul : 0 ∉ bs) {raw : RawLine}
    (hraw : raw.val = bs ++ [10]) : raw.trimWhitespace.bytes = bs := by
  have hnul' : 0 ∉ raw.val := by simpa [hraw] using hnul
  have hsame : (CStr.ofBytes raw.val).val = [] ++ bs ++ [10] :=
    (CStr.ofBytes_of_notMem hnul').trans hraw
  change trimBytes (CStr.ofBytes raw.val).val = bs
  rw [hsame]
  exact trimBytes_append hbs (by simp) (List.forall_mem_singleton.mpr rfl)

theorem readLine_comment (l : Loading) {text : String} (htext : commentOk text = true)
    {raw : RawLine} (hraw : raw.val = (CStr.lit text).val ++ [10]) : l.readLine raw = l := by
  simp only [commentOk, Bool.and_eq_true, beq_iff_eq, decide_eq_true_eq] at htext
  have htrimmed : Trimmed (CStr.lit text).val := by
    constructor
    · intro c hc
      rw [htext.1.1.1] at hc
      rw [← Option.some_inj.mp hc]
      rfl
    · intro c hc
      have hlast := htext.2
      rw [hc] at hlast
      simpa using hlast
  have hbytes := trimWhitespace_raw htrimmed (CStr.lit text).property hraw
  obtain ⟨rest, hrest⟩ := List.head?_eq_some_iff.mp htext.1.1.1
  rw [hrest] at hbytes
  unfold Loading.readLine Loading.readText
  simp only [hbytes]
  rfl

theorem readLine_blank (l : Loading) {raw : RawLine} (hraw : raw.val = [] ++ [10]) :
    l.readLine raw = l := by
  have hbytes := trimWhitespace_raw trimmed_nil List.not_mem_nil hraw
  unfold Loading.readLine Loading.readText
  simp only [hbytes]

theorem map_lowerByte {bs : List UInt8} (hbs : ∀ b ∈ bs, CStr.lowerByte b = b) :
    bs.map CStr.lowerByte = bs :=
  (List.map_congr_left hbs).trans (List.map_id bs)

theorem readLine_header (l : Loading) {name : CStr} (hname : nameOk name = true) {raw : RawLine}
    (hraw : raw.val = [91] ++ name.val ++ [93] ++ [10]) :
    l.readLine raw = { l with currentSection := name } := by
  simp only [nameOk, isNameByte, Bool.and_eq_true, Bool.or_eq_true, beq_iff_eq, decide_eq_true_eq,
    List.all_eq_true] at hname
  obtain ⟨hlen, hall⟩ := hname
  have hlower : name.val.map CStr.lowerByte = name.val := by
    refine map_lowerByte fun b hb => ?_
    rcases hall b hb with rfl | hword
    · rfl
    · exact hword.2
  have hbracket : 93 ∉ name.val := by
    intro hmem
    rcases hall 93 hmem with hdot | hword
    · exact absurd hdot (by decide)
    · exact absurd hword.1 (by decide)
  have hbytes : raw.trimWhitespace.bytes = 91 :: (name.val ++ [93]) := by
    refine trimWhitespace_raw ?_ (by simpa using name.property) hraw
    exact (trimmed_singleton (b := 91) rfl).append (trimmed_singleton (b := 93) rfl) (by simp)
      (by simp) name.val
  have hnul : 0 ∉ name.val ++ [93] := by simpa using name.property
  have hbreak : CStr.breakAt 93 (CStr.ofBytes (name.val ++ [93])) =
      some (name, CStr.ofBytes []) :=
    CStr.breakAt_eq_some (CStr.ofBytes_of_notMem hnul) hbracket
  have hsection : CStr.ofBytes ((name.val.take 63).map CStr.lowerByte) = name := by
    rw [List.take_of_length_le hlen, hlower, CStr.ofBytes_val]
  unfold Loading.readLine Loading.readText
  simp only [hbytes, hbreak, hsection]
  rfl

/-- A line taken apart at its first equals sign. -/
theorem split_equals {bs before behind : List UInt8} (hbs : bs = before ++ 61 :: behind)
    (hbefore : 61 ∉ before) :
    bs.takeWhile (· ≠ 61) = before ∧ (bs.dropWhile (· ≠ 61)).drop 1 = behind := by
  have hall : ∀ b ∈ before, decide (b ≠ 61) = true := by
    intro b hb
    exact decide_eq_true fun h => hbefore (h ▸ hb)
  rw [hbs, List.takeWhile_append_of_pos hall, List.dropWhile_append_of_pos hall]
  simp

theorem readLine_setting (l : Loading) {key : String} {value : Saved} (hkey : keyOk key = true)
    (hvalue : value.Fits) {raw : RawLine}
    (hraw : raw.val = (CStr.lit key).val ++ (CStr.lit " = ").val ++ value.bytes ++ [10]) :
    l.readLine raw = { l with
      config := parseConfigLine l.config l.currentSection (CStr.lit key).val value.value } := by
  simp only [keyOk, Bool.and_eq_true, decide_eq_true_eq, List.all_eq_true] at hkey
  obtain ⟨⟨hne, -⟩, hall⟩ := hkey
  have hprint := Saved.printable hvalue
  have hkeyTrimmed : Trimmed (CStr.lit key).val :=
    Trimmed.of_forall fun b hb => isSpace_of_isSettingByte (isSettingByte_of_isKeyByte (hall b hb))
  have hequals : 61 ∉ (CStr.lit key).val := fun hmem =>
    ne_of_isKeyByte (hall 61 hmem) (by decide) rfl
  have hnul : 0 ∉ (CStr.lit key).val ++ (CStr.lit " = ").val ++ value.bytes := by
    simp only [List.mem_append, not_or]
    exact ⟨⟨(CStr.lit key).property, (CStr.lit " = ").property⟩, hprint.noNul⟩
  have hbytes : raw.trimWhitespace.bytes =
      (CStr.lit key).val ++ (CStr.lit " = ").val ++ value.bytes :=
    trimWhitespace_raw (hkeyTrimmed.append hprint.trimmed hne hprint.ne_nil _) hnul hraw
  have hsplit : raw.trimWhitespace.bytes =
      ((CStr.lit key).val ++ [32]) ++ 61 :: ([32] ++ value.bytes) := by
    rw [hbytes]
    simp
    rfl
  obtain ⟨first, rest, hfirst⟩ := List.exists_cons_of_ne_nil hne
  have hletter : isKeyByte first = true := hall first (hfirst ▸ List.mem_cons_self)
  have hcomment : ¬ (first = 35 ∨ first = 59) :=
    not_or.mpr ⟨ne_of_isKeyByte hletter (by decide), ne_of_isKeyByte hletter (by decide)⟩
  have hheader : first ≠ 91 := ne_of_isKeyByte hletter (by decide)
  have hmem : 61 ∈ raw.trimWhitespace.bytes := by
    rw [hsplit]
    simp
  have hstart : raw.trimWhitespace.bytes =
      first :: (rest ++ [32] ++ 61 :: ([32] ++ value.bytes)) := by
    rw [hsplit, hfirst]
    simp
  have hbefore : 61 ∉ (CStr.lit key).val ++ [32] := by simpa using hequals
  obtain ⟨hleft, hright⟩ := split_equals hsplit hbefore
  have hkeyBytes : raw.trimWhitespace.beforeEquals.trimWhitespace.bytes.map CStr.lowerByte =
      (CStr.lit key).val := by
    change (trimBytes (raw.trimWhitespace.bytes.takeWhile (· ≠ 61))).map CStr.lowerByte = _
    rw [hleft, ← List.nil_append (CStr.lit key).val,
      trimBytes_append hkeyTrimmed (by simp) (List.forall_mem_singleton.mpr rfl)]
    exact map_lowerByte fun b hb => lowerByte_of_isKeyByte (hall b hb)
  have hvalueBytes : raw.trimWhitespace.behindEquals.trimWhitespace.bytes = value.bytes := by
    change trimBytes ((raw.trimWhitespace.bytes.dropWhile (· ≠ 61)).drop 1) = _
    rw [hright, ← List.append_nil ([32] ++ value.bytes),
      trimBytes_append hprint.trimmed (List.forall_mem_singleton.mpr rfl) (by simp)]
  unfold Loading.readLine Loading.readText
  simp only [hstart, if_neg hcomment, if_neg hheader, hkeyBytes]
  rw [if_pos (hstart ▸ hmem), Saved.unquote_value hvalue hvalueBytes]

theorem readLine_of_ok (l : Loading) {line : ConfigLine} (hline : line.Ok) {raw : RawLine}
    (hraw : raw.val = line.bytes ++ [10]) : l.readLine raw = applyLine l line := by
  cases line with
  | comment text => exact readLine_comment l hline hraw
  | blank => exact readLine_blank l hraw
  | header name => exact readLine_header l hline hraw
  | setting key value => exact readLine_setting l hline.1 hline.2 hraw

/-! ## A file of lines -/

theorem ConfigLine.bytes_fit {line : ConfigLine} (hline : line.Ok) :
    10 ∉ line.bytes ∧ line.bytes.length ≤ 510 := by
  cases line with
  | comment text =>
      simp only [Ok, commentOk, Bool.and_eq_true, decide_eq_true_eq, List.all_eq_true] at hline
      refine ⟨fun hmem => ?_, hline.1.1.2.trans (by decide)⟩
      exact absurd (hline.1.2 10 hmem) (by decide)
  | blank => exact ⟨List.not_mem_nil, Nat.zero_le _⟩
  | header name =>
      simp only [Ok, nameOk, Bool.and_eq_true, decide_eq_true_eq, List.all_eq_true] at hline
      constructor
      · intro hmem
        have hname : 10 ∈ name.val := by simpa [bytes] using hmem
        exact absurd (hline.2 10 hname) (by decide)
      · simp only [bytes, List.length_append, List.length_singleton]
        omega
  | setting key value =>
      have hprint := Saved.printable hline.2
      have hkey := hline.1
      simp only [keyOk, Bool.and_eq_true, decide_eq_true_eq, List.all_eq_true] at hkey
      have hlen : (CStr.lit " = ").val.length = 3 := by decide
      have hvalue := hprint.length
      constructor
      · simp only [bytes, List.mem_append, not_or]
        refine ⟨⟨fun hmem => ?_, by decide⟩, hprint.noNewline⟩
        exact ne_of_isKeyByte (hkey.2 10 hmem) (by decide) rfl
      · simp only [bytes, List.length_append, hlen]
        omega

/-- `fgets` takes a line that fits its buffer, with its newline. -/
theorem fgets_line {bs : List UInt8} (hbs : 10 ∉ bs) (hlen : bs.length ≤ 510) (rest : List UInt8) :
    ∃ raw : RawLine, raw.val = bs ++ [10] ∧ fgets 512 (bs ++ [10] ++ rest) = some (raw, rest) := by
  have hall : ∀ b ∈ bs, decide (b ≠ 10) = true := by
    intro b hb
    exact decide_eq_true fun h => hbs (h ▸ hb)
  have htake : (bs ++ [10] ++ rest).takeWhile (· ≠ 10) = bs := by
    rw [List.append_assoc, List.takeWhile_append_of_pos hall]
    simp
  have hline : lineLength 511 (bs ++ [10] ++ rest) = (bs ++ [10]).length := by
    rw [lineLength, htake, List.length_append, List.length_singleton]
    omega
  have hfgets : fgets 512 (bs ++ [10] ++ rest) =
      some (⟨(bs ++ [10] ++ rest).take (lineLength 511 (bs ++ [10] ++ rest)),
        notMem_dropLast_take _ _⟩,
        (bs ++ [10] ++ rest).drop (lineLength 511 (bs ++ [10] ++ rest))) :=
    if_neg (by simp)
  have hdrop : (bs ++ [10] ++ rest).drop (lineLength 511 (bs ++ [10] ++ rest)) = rest := by
    rw [hline, List.drop_left]
  rw [hdrop] at hfgets
  refine ⟨_, ?_, hfgets⟩
  change (bs ++ [10] ++ rest).take (lineLength 511 (bs ++ [10] ++ rest)) = bs ++ [10]
  rw [hline, List.take_left]

/-- Reading the lines of a saved file applies them one after another. -/
theorem foldl_readLines {lines : List ConfigLine} (hlines : ∀ line ∈ lines, line.Ok) {fuel : Nat}
    (hfuel : lines.length ≤ fuel) (l : Loading) :
    (readLines fuel (lines.flatMap fun line => line.bytes ++ [10])).foldl Loading.readLine l =
      lines.foldl applyLine l := by
  induction lines generalizing fuel l with
  | nil =>
      cases fuel with
      | zero => rfl
      | succ fuel => rfl
  | cons line lines ih =>
      obtain ⟨hline, hlines⟩ := List.forall_mem_cons.mp hlines
      obtain ⟨hnewline, hlen⟩ := ConfigLine.bytes_fit hline
      cases fuel with
      | zero => cases hfuel
      | succ fuel =>
          obtain ⟨raw, hraw, hfgets⟩ := fgets_line hnewline hlen
            (lines.flatMap fun line => line.bytes ++ [10])
          rw [List.flatMap_cons, readLines]
          simp only [hfgets]
          rw [List.foldl_cons, List.foldl_cons, readLine_of_ok l hline hraw]
          exact ih hlines (Nat.le_of_succ_le_succ hfuel) _

theorem length_le_length_flatMap (lines : List ConfigLine) :
    lines.length ≤ (lines.flatMap fun line => line.bytes ++ [10]).length := by
  induction lines with
  | nil => exact Nat.le_refl 0
  | cons line lines ih =>
      rw [List.flatMap_cons, List.length_append, List.length_append, List.length_cons]
      simp only [List.length_singleton]
      omega

/-! ## The sections -/

/-- What the lines of one section do to it. -/
def applyTo {σ : Type} (keys : Keys σ) (sect : σ) : ConfigLine → σ
  | .setting key value => keys.apply (CStr.lit key).val value.value sect
  | _ => sect

def IsHeader : ConfigLine → Prop
  | .header _ => True
  | _ => False

/-- A section that `parse_config_line` reads through `keys` and keeps at one place. -/
structure Place (name : CStr) {σ : Type} (keys : Keys σ) where
  get : InventixConfig → σ
  put : InventixConfig → σ → InventixConfig
  parse : ∀ config key value, parseConfigLine config name key value =
    put config (keys.apply key value (get config))
  get_put : ∀ config sect, get (put config sect) = sect
  put_put : ∀ config sect sect', put (put config sect) sect' = put config sect'
  put_get : ∀ config, put config (get config) = config

theorem Place.foldl_applyLine {name : CStr} {σ : Type} {keys : Keys σ} (place : Place name keys)
    {lines : List ConfigLine} (hlines : ∀ line ∈ lines, ¬ IsHeader line) (config : InventixConfig) :
    lines.foldl applyLine { currentSection := name, config := config } =
      { currentSection := name
        config := place.put config (lines.foldl (applyTo keys) (place.get config)) } := by
  induction lines generalizing config with
  | nil => rw [List.foldl_nil, List.foldl_nil, place.put_get]
  | cons line lines ih =>
      obtain ⟨hline, hrest⟩ := List.forall_mem_cons.mp hlines
      rw [List.foldl_cons, List.foldl_cons]
      cases line with
      | comment text => exact ih hrest config
      | blank => exact ih hrest config
      | header other => exact absurd trivial hline
      | setting key value =>
          have hone : applyLine { currentSection := name, config := config } (.setting key value) =
              { currentSection := name
                config := place.put config
                  (keys.apply (CStr.lit key).val value.value (place.get config)) } := by
            rw [applyLine, place.parse]
          rw [hone, ih hrest, place.get_put, place.put_put]
          rfl

def storagePlace : Place (CStr.lit "storage") storageKeys where
  get := InventixConfig.storage
  put := fun config sect => { config with storage := sect }
  parse := fun _ _ _ => rfl
  get_put := fun _ _ => rfl
  put_put := fun _ _ _ => rfl
  put_get := fun _ => rfl

def bufferPoolPlace : Place (CStr.lit "buffer_pool") bufferPoolKeys where
  get := InventixConfig.bufferPool
  put := fun config sect => { config with bufferPool := sect }
  parse := fun _ _ _ => rfl
  get_put := fun _ _ => rfl
  put_put := fun _ _ _ => rfl
  put_get := fun _ => rfl

def networkPlace : Place (CStr.lit "network") networkKeys where
  get := InventixConfig.network
  put := fun config sect => { config with network := sect }
  parse := fun _ _ _ => rfl
  get_put := fun _ _ => rfl
  put_put := fun _ _ _ => rfl
  put_get := fun _ => rfl

def distributedPlace : Place (CStr.lit "distributed") distributedKeys where
  get := InventixConfig.distributed
  put := fun config sect => { config with distributed := sect }
  parse := fun _ _ _ => rfl
  get_put := fun _ _ => rfl
  put_put := fun _ _ _ => rfl
  put_get := fun _ => rfl

def securityPlace : Place (CStr.lit "security") securityKeys where
  get := InventixConfig.security
  put := fun config sect => { config with security := sect }
  parse := fun _ _ _ => rfl
  get_put := fun _ _ => rfl
  put_put := fun _ _ _ => rfl
  put_get := fun _ => rfl

def loggingPlace : Place (CStr.lit "logging") loggingKeys where
  get := InventixConfig.logging
  put := fun config sect => { config with logging := sect }
  parse := fun _ _ _ => rfl
  get_put := fun _ _ => rfl
  put_put := fun _ _ _ => rfl
  put_get := fun _ => rfl

def queryPlace : Place (CStr.lit "query") queryKeys where
  get := InventixConfig.query
  put := fun config sect => { config with query := sect }
  parse := fun _ _ _ => rfl
  get_put := fun _ _ => rfl
  put_put := fun _ _ _ => rfl
  put_get := fun _ => rfl

theorem val_workerSection (i : Fin maxConfigWorkers) :
    (workerSection i).val = (CStr.lit "worker.").val ++ (CStr.ofInt i.val).val :=
  rfl

theorem sectionIndex_worker (i : Fin maxConfigWorkers) :
    sectionIndex maxConfigWorkers 7 (workerSection i) = some i := by
  have hlen : (CStr.lit "worker.").val.length = 7 := by decide
  have hlt : i.val < 16 := i.isLt
  have hrest : CStr.ofBytes ((workerSection i).val.drop 7) = CStr.ofInt i.val := by
    rw [val_workerSection, List.drop_append_of_le_length (by omega),
      List.drop_of_length_le (by omega), List.nil_append, CStr.ofBytes_val]
  have hidx : CStr.atoi (CStr.ofBytes ((workerSection i).val.drop 7)) = i.val := by
    rw [hrest, CStr.atoi_ofInt (by omega)]
  unfold sectionIndex
  simp only [hidx]
  rw [dif_pos ⟨Int.natCast_nonneg _, Int.ofNat_lt.mpr hlt⟩]
  simp only [Int.toNat_natCast]

theorem workerSection_ne (i : Fin maxConfigWorkers) {s : String}
    (hs : (CStr.lit s).val.head? ≠ some 119) : workerSection i ≠ CStr.lit s := by
  intro heq
  refine hs ?_
  rw [← heq]
  rfl

def workerPlace (i : Fin maxConfigWorkers) : Place (workerSection i) workerKeys where
  get := fun config => config.distributed.workers i
  put := fun config worker =>
    { config with distributed :=
      { config.distributed with workers := Function.update config.distributed.workers i worker } }
  parse := by
    intro config key value
    have hseed : ¬ CStr.startsWith (CStr.lit "seed.") (workerSection i) = true :=
      Bool.false_ne_true
    have hworker : CStr.startsWith (CStr.lit "worker.") (workerSection i) = true := by
      rw [CStr.startsWith, val_workerSection, List.isPrefixOf_iff_prefix]
      exact List.prefix_append _ _
    rw [parseConfigLine, if_neg (workerSection_ne i (by decide)),
      if_neg (workerSection_ne i (by decide)), if_neg (workerSection_ne i (by decide)),
      if_neg (workerSection_ne i (by decide)), if_neg (workerSection_ne i (by decide)),
      if_neg hseed, if_pos hworker, sectionIndex_worker]
  get_put := fun _ _ => Function.update_self i _ _
  put_put := by
    intro config sect sect'
    simp only [Function.update_idem]
  put_get := by
    intro config
    simp only [Function.update_eq_self]

theorem storage_reread (c d : StorageConfig) :
    (storageLines c).tail.foldl (applyTo storageKeys) d = c := by
  calc (storageLines c).tail.foldl (applyTo storageKeys) d
      = { initialCapacity := (Saved.int c.initialCapacity).value.int
          checkpointThresholdKb := (Saved.int c.checkpointThresholdKb).value.int
          logFile := (Saved.quoted c.logFile.toText).value.strncpy (by decide)
          snapFile := (Saved.quoted c.snapFile.toText).value.strncpy (by decide)
          dataDir := (Saved.quoted c.dataDir.toText).value.strncpy (by decide)
          skipListMaxLevel := (Saved.int c.skipListMaxLevel).value.int
          enableAof := parseBool (Saved.bool c.enableAof).value
          enableSnapshots := parseBool (Saved.bool c.enableSnapshots).value
          syncOnWrite := parseBool (Saved.bool c.syncOnWrite).value } := rfl
    _ = c := by simp only [int_value, strncpy_value, parseBool_value]

theorem bufferPool_reread (c d : BufferPoolConfig) :
    (bufferPoolLines c).tail.foldl (applyTo bufferPoolKeys) d = c := by
  calc (bufferPoolLines c).tail.foldl (applyTo bufferPoolKeys) d
      = { poolSize := (Saved.int c.poolSize).value.int
          pageSize := (Saved.int c.pageSize).value.int
          prefetchEnabled := parseBool (Saved.bool c.prefetchEnabled).value
          evictionPolicy := parseEnum evictionNames
            (Saved.word (evictionName c.evictionPolicy)).value d.evictionPolicy } := rfl
    _ = c := by simp only [int_value, parseBool_value, parseEviction_value]

theorem network_reread (c d : NetworkConfig) :
    (networkLines c).tail.foldl (applyTo networkKeys) d = c := by
  calc (networkLines c).tail.foldl (applyTo networkKeys) d
      = { serverPort := (Saved.int c.serverPort).value.int
          maxConnections := (Saved.int c.maxConnections).value.int
          connectionTimeoutMs := (Saved.int c.connectionTimeoutMs).value.int
          readBufferSize := (Saved.int c.readBufferSize).value.int
          writeBufferSize := (Saved.int c.writeBufferSize).value.int
          enableTcpNodelay := parseBool (Saved.bool c.enableTcpNodelay).value
          backlogSize := (Saved.int c.backlogSize).value.int } := rfl
    _ = c := by simp only [int_value, parseBool_value]

/-- The workers have sections of their own. -/
theorem distributed_reread (c d : DistributedConfig) :
    (distributedLines c).tail.foldl (applyTo distributedKeys) d =
      { c with workers := d.workers } := by
  calc (distributedLines c).tail.foldl (applyTo distributedKeys) d
      = { isMaster := parseBool (Saved.bool c.isMaster).value
          workerCount := (Saved.int c.workerCount).value.int
          workers := d.workers
          replicationFactor := (Saved.int c.replicationFactor).value.int
          partitionStrategy := parseEnum partitionNames
            (Saved.word (partitionName c.partitionStrategy)).value d.partitionStrategy
          heartbeatIntervalMs := (Saved.int c.heartbeatIntervalMs).value.int
          workerTimeoutMs := (Saved.int c.workerTimeoutMs).value.int
          enableAutoFailover := parseBool (Saved.bool c.enableAutoFailover).value } := rfl
    _ = { c with workers := d.workers } := by
        simp only [int_value, parseBool_value, parsePartition_value]

theorem worker_reread (c : DistributedConfig) (i : Fin maxConfigWorkers) (d : WorkerConfig) :
    (workerLines c i).tail.foldl (applyTo workerKeys) d = c.workers i := by
  calc (workerLines c i).tail.foldl (applyTo workerKeys) d
      = { ip := (Saved.quoted (c.workers i).ip.toText).value.strncpy (by decide)
          port := (Saved.int (c.workers i).port).value.int
          enabled := parseBool (Saved.bool (c.workers i).enabled).value
          name := (Saved.quoted (c.workers i).name.toText).value.strncpy (by decide) } := rfl
    _ = c.workers i := by simp only [int_value, strncpy_value, parseBool_value]

/-- The password is not among the lines. -/
theorem security_reread (c d : SecurityConfig) :
    (securityLines c).tail.foldl (applyTo securityKeys) d =
      { c with defaultAdminPass := d.defaultAdminPass } := by
  calc (securityLines c).tail.foldl (applyTo securityKeys) d
      = { enableAuth := parseBool (Saved.bool c.enableAuth).value
          defaultAdminUser := (Saved.quoted c.defaultAdminUser.toText).value.strncpy (by decide)
          defaultAdminPass := d.defaultAdminPass
          passwordMinLength := (Saved.int c.passwordMinLength).value.int
          sessionTimeoutSec := (Saved.int c.sessionTimeoutSec).value.int
          maxLoginAttempts := (Saved.int c.maxLoginAttempts).value.int
          lockoutDurationSec := (Saved.int c.lockoutDurationSec).value.int } := rfl
    _ = { c with defaultAdminPass := d.defaultAdminPass } := by
        simp only [int_value, strncpy_value, parseBool_value]

theorem logging_reread (c d : LoggingConfig) {name : String} {level : Int32}
    (hname : parseEnum logLevelNames (Saved.word name).value (Saved.word name).value.int = level) :
    (loggingLines c name).tail.foldl (applyTo loggingKeys) d = { c with logLevel := level } := by
  calc (loggingLines c name).tail.foldl (applyTo loggingKeys) d
      = { logLevel := parseEnum logLevelNames (Saved.word name).value (Saved.word name).value.int
          logFile := (Saved.quoted c.logFile.toText).value.strncpy (by decide)
          maxLogSizeMb := (Saved.int c.maxLogSizeMb).value.int
          logRotationCount := (Saved.int c.logRotationCount).value.int
          enableQueryLogging := parseBool (Saved.bool c.enableQueryLogging).value
          enableSlowQueryLog := parseBool (Saved.bool c.enableSlowQueryLog).value
          slowQueryThresholdMs := (Saved.int c.slowQueryThresholdMs).value.int } := rfl
    _ = { c with logLevel := level } := by
        simp only [hname, int_value, strncpy_value, parseBool_value]

theorem query_reread (c d : QueryConfig) :
    (queryLines c).tail.foldl (applyTo queryKeys) d = c := by
  calc (queryLines c).tail.foldl (applyTo queryKeys) d
      = { maxResultRows := (Saved.int c.maxResultRows).value.int
          queryTimeoutSec := (Saved.int c.queryTimeoutSec).value.int
          enableQueryCache := parseBool (Saved.bool c.enableQueryCache).value
          queryCacheSizeMb := (Saved.int c.queryCacheSizeMb).value.int
          maxMemoryPerQueryMb := (Saved.int c.maxMemoryPerQueryMb).value.int } := rfl
    _ = c := by simp only [int_value, parseBool_value]

/-! ## All lines -/

theorem Place.foldl_section {name : CStr} {σ : Type} {keys : Keys σ} (place : Place name keys)
    {lines : List ConfigLine} (hlines : ∀ line ∈ lines, ¬ IsHeader line) (l : Loading) :
    (.header name :: lines).foldl applyLine l =
      { currentSection := name
        config := place.put l.config (lines.foldl (applyTo keys) (place.get l.config)) } :=
  place.foldl_applyLine hlines l.config

/-- The lines of a section can be read back, and only the first is a header. -/
structure SectionOk (lines : List ConfigLine) : Prop where
  ok : ∀ line ∈ lines, line.Ok
  tail : ∀ line ∈ lines.tail, ¬ IsHeader line

theorem storage_ok (c : StorageConfig) : SectionOk (storageLines c) where
  ok := by
    simp +decide only [storageLines, List.forall_mem_cons, List.not_mem_nil, false_imp_iff,
      implies_true, and_true, ConfigLine.Ok, Saved.Fits, c.logFile.fits, c.snapFile.fits,
      c.dataDir.fits]
  tail := by simp [storageLines, IsHeader]

theorem bufferPool_ok (c : BufferPoolConfig) : SectionOk (bufferPoolLines c) where
  ok := by
    have hname : wordOk (evictionName c.evictionPolicy) = true := by
      cases c.evictionPolicy with
      | lru => decide
      | clock => decide
      | lfu => decide
    simp +decide only [bufferPoolLines, List.forall_mem_cons, List.not_mem_nil, false_imp_iff,
      implies_true, and_true, ConfigLine.Ok, Saved.Fits, hname]
  tail := by simp [bufferPoolLines, IsHeader]

theorem network_ok (c : NetworkConfig) : SectionOk (networkLines c) where
  ok := by
    simp +decide only [networkLines, List.forall_mem_cons, List.not_mem_nil, false_imp_iff,
      implies_true, and_true, ConfigLine.Ok, Saved.Fits]
  tail := by simp [networkLines, IsHeader]

theorem distributed_ok (c : DistributedConfig) : SectionOk (distributedLines c) where
  ok := by
    have hname : wordOk (partitionName c.partitionStrategy) = true := by
      cases c.partitionStrategy with
      | hash => decide
      | range => decide
    simp +decide only [distributedLines, List.forall_mem_cons, List.not_mem_nil, false_imp_iff,
      implies_true, and_true, ConfigLine.Ok, Saved.Fits, hname]
  tail := by simp [distributedLines, IsHeader]

theorem isNameByte_of_isDigit {b : UInt8} (hb : CStr.isDigit b = true) : isNameByte b = true := by
  have hlower : CStr.lowerByte b = b := by
    refine if_neg fun hupper => ?_
    simp only [CStr.isDigit, Bool.and_eq_true, decide_eq_true_eq, UInt8.le_iff_toNat_le,
      UInt8.reduceToNat] at hb hupper
    omega
  rw [CStr.isDigit] at hb
  rw [isNameByte, hlower, isSettingByte, hb]
  simp

theorem nameOk_workerSection (i : Fin maxConfigWorkers) : nameOk (workerSection i) = true := by
  have hlt : i.val < 16 := i.isLt
  have hdigits : (CStr.ofInt i.val).val.length ≤ 2 := by
    rw [CStr.val_ofInt_natCast, CStr.decimal, List.length_reverse]
    exact CStr.length_digitsRev_le (k := 1) (by omega)
  have hlen : (CStr.lit "worker.").val.length = 7 := by decide
  have hword : (CStr.lit "worker.").val.all isNameByte = true := by decide
  have hnumber : (CStr.ofInt i.val).val.all isNameByte = true := by
    rw [CStr.val_ofInt_natCast, List.all_eq_true]
    exact fun b hb => isNameByte_of_isDigit (CStr.isDigit_of_mem_decimal hb)
  rw [nameOk, val_workerSection, List.all_append, hword, hnumber, List.length_append]
  simp only [Bool.and_true, decide_eq_true_eq]
  omega

theorem worker_ok (c : DistributedConfig) (i : Fin maxConfigWorkers) :
    SectionOk (workerLines c i) where
  ok := by
    have hip : (c.workers i).ip.bytes.length < 256 :=
      (c.workers i).ip.fits.trans (by decide : 64 < 256)
    have hname : (c.workers i).name.bytes.length < 256 :=
      (c.workers i).name.fits.trans (by decide : 32 < 256)
    simp +decide only [workerLines, List.forall_mem_cons, List.not_mem_nil, false_imp_iff,
      implies_true, and_true, ConfigLine.Ok, Saved.Fits, nameOk_workerSection, hip, hname]
  tail := by simp [workerLines, IsHeader]

theorem security_ok (c : SecurityConfig) : SectionOk (securityLines c) where
  ok := by
    have huser : c.defaultAdminUser.bytes.length < 256 :=
      c.defaultAdminUser.fits.trans (by decide : 64 < 256)
    simp +decide only [securityLines, List.forall_mem_cons, List.not_mem_nil, false_imp_iff,
      implies_true, and_true, ConfigLine.Ok, Saved.Fits, huser]
  tail := by simp [securityLines, IsHeader]

theorem logging_ok (c : LoggingConfig) {name : String} (hname : wordOk name = true) :
    SectionOk (loggingLines c name) where
  ok := by
    simp +decide only [loggingLines, List.forall_mem_cons, List.not_mem_nil, false_imp_iff,
      implies_true, and_true, ConfigLine.Ok, Saved.Fits, c.logFile.fits, hname]
  tail := by simp [loggingLines, IsHeader]

theorem query_ok (c : QueryConfig) : SectionOk (queryLines c) where
  ok := by
    simp +decide only [queryLines, List.forall_mem_cons, List.not_mem_nil, false_imp_iff,
      implies_true, and_true, ConfigLine.Ok, Saved.Fits]
  tail := by simp [queryLines, IsHeader]

theorem title_ok : ∀ line ∈ titleLines, line.Ok := by
  simp +decide only [titleLines, List.forall_mem_cons, List.not_mem_nil, false_imp_iff,
    implies_true, and_true, ConfigLine.Ok]

/-- The name of a level stands for the level modulo 4. -/
theorem logLevelName_spec {level : Int32} {name : String} (hname : logLevelName level = some name) :
    wordOk name = true ∧
      parseEnum logLevelNames (Saved.word name).value (Saved.word name).value.int =
        Int32.ofInt (level.toInt.tmod 4) := by
  unfold logLevelName at hname
  simp only at hname
  generalize hidx : level.toInt.tmod 4 = idx at hname ⊢
  split at hname
  · next hnonneg =>
      have hlt : idx < 4 := hidx ▸ Int.tmod_lt_of_pos _ (by decide)
      have hcases : idx = 0 ∨ idx = 1 ∨ idx = 2 ∨ idx = 3 := by omega
      rcases hcases with rfl | rfl | rfl | rfl
      · cases hname
        exact ⟨by decide, rfl⟩
      · cases hname
        exact ⟨by decide, rfl⟩
      · cases hname
        exact ⟨by decide, rfl⟩
      · cases hname
        exact ⟨by decide, rfl⟩
  · cases hname

/-- The sections of the workers are read one by one. -/
theorem workers_section (c : DistributedConfig) (indices : List (Fin maxConfigWorkers))
    (l : Loading) :
    ((indices.flatMap (workerLines c)).foldl applyLine l).config =
      { l.config with distributed :=
        { l.config.distributed with
          workers := fun i =>
            if i ∈ indices then c.workers i else l.config.distributed.workers i } } := by
  induction indices generalizing l with
  | nil => simp
  | cons i indices ih =>
      have hone : (workerLines c i).foldl applyLine l =
          { currentSection := workerSection i
            config := (workerPlace i).put l.config (c.workers i) } := by
        have hfold := (workerPlace i).foldl_section (worker_ok c i).tail l
        rw [worker_reread] at hfold
        exact hfold
      rw [List.flatMap_cons, List.foldl_append, hone, ih]
      simp only [workerPlace]
      congr 2
      funext j
      by_cases hji : j = i
      · subst hji
        simp
      · simp [hji]

/-- The configuration that is loaded from `filepath` once it has been saved there. -/
def reloaded (filepath : CStr) (config : InventixConfig) : InventixConfig :=
  { configInitDefaults with
    configFile := CStr.ofBytes (filepath.val.take 255)
    configLoaded := true
    storage := config.storage
    bufferPool := config.bufferPool
    network := config.network
    distributed :=
      { config.distributed with
        workers := fun i =>
          if i ∈ savedWorkers config.distributed then config.distributed.workers i
          else defaultWorkers i }
    security :=
      { config.security with
        defaultAdminPass := configInitDefaults.security.defaultAdminPass }
    logging :=
      { config.logging with logLevel := Int32.ofInt (config.logging.logLevel.toInt.tmod 4) }
    query := config.query }

theorem storage_section (c : StorageConfig) (l : Loading) :
    (storageLines c).foldl applyLine l =
      { currentSection := CStr.lit "storage", config := { l.config with storage := c } } := by
  have hfold := storagePlace.foldl_section (storage_ok c).tail l
  rw [storage_reread] at hfold
  exact hfold

theorem bufferPool_section (c : BufferPoolConfig) (l : Loading) :
    (bufferPoolLines c).foldl applyLine l =
      { currentSection := CStr.lit "buffer_pool"
        config := { l.config with bufferPool := c } } := by
  have hfold := bufferPoolPlace.foldl_section (bufferPool_ok c).tail l
  rw [bufferPool_reread] at hfold
  exact hfold

theorem network_section (c : NetworkConfig) (l : Loading) :
    (networkLines c).foldl applyLine l =
      { currentSection := CStr.lit "network", config := { l.config with network := c } } := by
  have hfold := networkPlace.foldl_section (network_ok c).tail l
  rw [network_reread] at hfold
  exact hfold

theorem distributed_section (c : DistributedConfig) (l : Loading) :
    (distributedLines c).foldl applyLine l =
      { currentSection := CStr.lit "distributed"
        config := { l.config with
          distributed := { c with workers := l.config.distributed.workers } } } := by
  have hfold := distributedPlace.foldl_section (distributed_ok c).tail l
  rw [distributed_reread] at hfold
  exact hfold

theorem security_section (c : SecurityConfig) (l : Loading) :
    (securityLines c).foldl applyLine l =
      { currentSection := CStr.lit "security"
        config := { l.config with
          security := { c with defaultAdminPass := l.config.security.defaultAdminPass } } } := by
  have hfold := securityPlace.foldl_section (security_ok c).tail l
  rw [security_reread] at hfold
  exact hfold

theorem logging_section (c : LoggingConfig) {name : String} {level : Int32}
    (hword : wordOk name = true)
    (hname : parseEnum logLevelNames (Saved.word name).value (Saved.word name).value.int = level)
    (l : Loading) :
    (loggingLines c name).foldl applyLine l =
      { currentSection := CStr.lit "logging"
        config := { l.config with logging := { c with logLevel := level } } } := by
  have hfold := loggingPlace.foldl_section (logging_ok c hword).tail l
  rw [logging_reread c _ hname] at hfold
  exact hfold

theorem query_section (c : QueryConfig) (l : Loading) :
    (queryLines c).foldl applyLine l =
      { currentSection := CStr.lit "query", config := { l.config with query := c } } := by
  have hfold := queryPlace.foldl_section (query_ok c).tail l
  rw [query_reread] at hfold
  exact hfold

theorem configLines_ok {config : InventixConfig} {lines : List ConfigLine}
    (hlines : configLines config = some lines) : ∀ line ∈ lines, line.Ok := by
  obtain ⟨name, hname, rfl⟩ := Option.map_eq_some_iff.mp hlines
  have hword := (logLevelName_spec hname).1
  simp only [List.mem_append, List.mem_flatMap]
  rintro line ((((((((h | h) | h) | h) | h) | ⟨i, -, h⟩) | h) | h) | h)
  · exact title_ok line h
  · exact (storage_ok _).ok line h
  · exact (bufferPool_ok _).ok line h
  · exact (network_ok _).ok line h
  · exact (distributed_ok _).ok line h
  · exact (worker_ok _ i).ok line h
  · exact (security_ok _).ok line h
  · exact (logging_ok _ hword).ok line h
  · exact (query_ok _).ok line h

theorem foldl_configLines {config : InventixConfig} {lines : List ConfigLine}
    (hlines : configLines config = some lines) (filepath : CStr) (l : Loading)
    (hl : l.config = { configInitDefaults with
      configFile := CStr.ofBytes (filepath.val.take 255) }) :
    { (lines.foldl applyLine l).config with configLoaded := true } = reloaded filepath config := by
  obtain ⟨name, hname, rfl⟩ := Option.map_eq_some_iff.mp hlines
  obtain ⟨hword, hlevel⟩ := logLevelName_spec hname
  have htitle : titleLines.foldl applyLine l = l := rfl
  simp only [List.foldl_append, htitle, storage_section, bufferPool_section, network_section,
    distributed_section, security_section, logging_section _ hword hlevel, query_section,
    workers_section, hl]
  rfl

/-- What `config_load` makes of a file that `config_save` wrote. -/
theorem configLoad_of_configSave {config : InventixConfig} {saved : List UInt8}
    (hsave : configSave config = some saved) (filepath : CStr) :
    configLoad filepath saved = reloaded filepath config := by
  obtain ⟨lines, hlines, rfl⟩ := Option.map_eq_some_iff.mp hsave
  rw [← foldl_configLines hlines filepath
    { currentSection := CStr.lit "global"
      config := { configInitDefaults with
        configFile := CStr.ofBytes (filepath.val.take 255) } } rfl]
  rw [configLoad, foldl_readLines (configLines_ok hlines) (length_le_length_flatMap lines)]

/-! ## When nothing is lost -/

/-- Equal but for the admin password. -/
def SameSettings (a b : InventixConfig) : Prop :=
  a = { b with security := { b.security with defaultAdminPass := a.security.defaultAdminPass } }

/-- The configuration can be saved to `filepath`, and is what is loaded from there. -/
def RoundTrips (filepath : CStr) (config : InventixConfig) : Prop :=
  ∃ saved, configSave config = some saved ∧ SameSettings (configLoad filepath saved) config

/-- What is not saved is at its default, the log level has a name, and `config_file` is the path
the configuration is saved to. -/
structure Savable (filepath : CStr) (config : InventixConfig) : Prop where
  cluster : config.cluster = configInitDefaults.cluster
  storageEngine : config.storageEngine = configInitDefaults.storageEngine
  workers : ∀ i : Fin maxConfigWorkers, config.distributed.workerCount.toInt ≤ i.val →
    config.distributed.workers i = configInitDefaults.distributed.workers i
  logLevel : 0 ≤ config.logging.logLevel.toInt ∧ config.logging.logLevel.toInt < 4
  configFile : config.configFile.val = filepath.val.take 255

theorem mem_savedWorkers_iff {c : DistributedConfig} {i : Fin maxConfigWorkers} :
    i ∈ savedWorkers c ↔ (i.val : Int) < c.workerCount.toInt := by
  simp [savedWorkers]

theorem exists_logLevelName_iff {level : Int32} :
    (∃ name, logLevelName level = some name) ↔ 0 ≤ level.toInt.tmod 4 := by
  have hlt : level.toInt.tmod 4 < 4 := Int.tmod_lt_of_pos _ (by decide)
  unfold logLevelName
  generalize level.toInt.tmod 4 = idx at hlt ⊢
  constructor
  · rintro ⟨name, hname⟩
    by_contra hneg
    rw [if_neg hneg] at hname
    cases hname
  · intro hnonneg
    simp only [if_pos hnonneg]
    exact ⟨_, List.getElem?_eq_getElem (show idx.toNat < 4 by omega)⟩

theorem ofInt_tmod_eq_iff {level : Int32} (hnonneg : 0 ≤ level.toInt.tmod 4) :
    Int32.ofInt (level.toInt.tmod 4) = level ↔ 0 ≤ level.toInt ∧ level.toInt < 4 := by
  have hlt : level.toInt.tmod 4 < 4 := Int.tmod_lt_of_pos _ (by decide)
  have hval : (Int32.ofInt (level.toInt.tmod 4)).toInt = level.toInt.tmod 4 :=
    Int32.toInt_ofInt_of_le (by omega) (by omega)
  rw [← Int32.toInt_inj, hval]
  constructor
  · intro heq
    omega
  · rintro ⟨hlow, hhigh⟩
    exact Int.tmod_eq_of_lt hlow hhigh

theorem savable_of_same {filepath : CStr} {config : InventixConfig}
    (hnonneg : 0 ≤ config.logging.logLevel.toInt.tmod 4)
    (hsame : SameSettings (reloaded filepath config) config) : Savable filepath config where
  cluster := (congrArg InventixConfig.cluster hsame).symm
  storageEngine := (congrArg InventixConfig.storageEngine hsame).symm
  workers := by
    intro i hi
    have hworkers := congrFun (congrArg (fun c => c.distributed.workers) hsame) i
    simp only [reloaded, mem_savedWorkers_iff, if_neg (Int.not_lt.mpr hi)] at hworkers
    exact hworkers.symm
  logLevel :=
    (ofInt_tmod_eq_iff hnonneg).mp (congrArg (fun c => c.logging.logLevel) hsame)
  configFile := by
    have hfile := congrArg (fun c => c.configFile.val) hsame
    have hnul : 0 ∉ filepath.val.take 255 := fun h => filepath.property (List.mem_of_mem_take h)
    simp only [reloaded, CStr.ofBytes_of_notMem hnul] at hfile
    exact hfile.symm

theorem same_of_savable {filepath : CStr} {config : InventixConfig}
    (hloaded : config.configLoaded = true) (hsavable : Savable filepath config) :
    SameSettings (reloaded filepath config) config := by
  have hfile : CStr.ofBytes (filepath.val.take 255) = config.configFile := by
    rw [← hsavable.configFile, CStr.ofBytes_val]
  have hworkers : (fun i => if i ∈ savedWorkers config.distributed then config.distributed.workers i
      else defaultWorkers i) = config.distributed.workers := by
    funext i
    by_cases hi : i ∈ savedWorkers config.distributed
    · rw [if_pos hi]
    · rw [if_neg hi]
      exact (hsavable.workers i (Int.not_lt.mp (mem_savedWorkers_iff.not.mp hi))).symm
  obtain ⟨hlow, hhigh⟩ := hsavable.logLevel
  have hlevel : Int32.ofInt (config.logging.logLevel.toInt.tmod 4) = config.logging.logLevel := by
    rw [Int.tmod_eq_of_lt hlow hhigh, Int32.ofInt_toInt]
  unfold SameSettings reloaded
  simp only [hfile, hworkers, hlevel, ← hsavable.cluster, ← hsavable.storageEngine, ← hloaded]

theorem roundTrips_iff_savable (filepath : CStr) {config : InventixConfig}
    (hloaded : config.configLoaded = true) :
    RoundTrips filepath config ↔ Savable filepath config := by
  constructor
  · rintro ⟨saved, hsave, hsame⟩
    rw [configLoad_of_configSave hsave] at hsame
    obtain ⟨lines, hlines, -⟩ := Option.map_eq_some_iff.mp hsave
    obtain ⟨name, hname, -⟩ := Option.map_eq_some_iff.mp hlines
    exact savable_of_same (exists_logLevelName_iff.mp ⟨name, hname⟩) hsame
  · intro hsavable
    obtain ⟨hlow, hhigh⟩ := hsavable.logLevel
    have hnonneg : 0 ≤ config.logging.logLevel.toInt.tmod 4 := by
      rw [Int.tmod_eq_of_lt hlow hhigh]
      exact hlow
    obtain ⟨name, hname⟩ := exists_logLevelName_iff.mpr hnonneg
    have hsave : ∃ saved, configSave config = some saved := by
      simp only [configSave, configLines, hname, Option.map_some]
      exact ⟨_, rfl⟩
    obtain ⟨saved, hsave⟩ := hsave
    refine ⟨saved, hsave, ?_⟩
    rw [configLoad_of_configSave hsave]
    exact same_of_savable hloaded hsavable

/-- A configuration loaded from any file comes back from where it is saved just when it holds
nothing that is not saved. -/
theorem loaded_roundTrips_iff (source filepath : CStr) (file : List UInt8) :
    RoundTrips filepath (configLoad source file) ↔ Savable filepath (configLoad source file) :=
  roundTrips_iff_savable filepath rfl

/-- `[cluster]` and `enabled = true`, loaded and saved again under the same path. -/
theorem cluster_section_is_lost :
    ¬ ∀ (filepath : CStr) (file : List UInt8), RoundTrips filepath (configLoad filepath file) := by
  intro hall
  have hsavable := (roundTrips_iff_savable _ rfl).mp
    (hall (CStr.lit "inventix.conf") (CStr.lit "[cluster]\nenabled = true\n").val)
  have henabled : (configLoad (CStr.lit "inventix.conf")
      (CStr.lit "[cluster]\nenabled = true\n").val).cluster.clusterEnabled = true := by
    decide +kernel
  rw [hsavable.cluster] at henabled
  cases henabled

end Server
end InventixDB
