import InventixDB.Lib.ByteCodec
import Mathlib.Data.Fin.Basic
import Mathlib.Data.List.Basic
import Mathlib.Data.List.TakeWhile

/-!
# CStr — the C strings of the engine

A `CStr` is the byte sequence before a string's terminating NUL, so it holds no NUL itself.
`hash` and `atoi` are the two functions through which strings become numbers.
-/

namespace InventixDB
namespace Storage

/-- The bytes before the terminating NUL. -/
abbrev CStr := { s : List UInt8 // 0 ∉ s }

namespace CStr

instance : LawfulBEq CStr := inferInstance

/-- The string that starts a buffer: its bytes up to the first NUL. -/
def ofBytes (bs : List UInt8) : CStr :=
  ⟨bs.takeWhile (· ≠ 0), by
    intro hmem
    have hne := List.mem_takeWhile_imp hmem
    simp at hne⟩

/-- A string constant of the source, in UTF-8. -/
def lit (s : String) : CStr :=
  ofBytes s.toByteArray.data.toList

instance : Append CStr :=
  ⟨fun a b => ⟨a.val ++ b.val, by
    rw [List.mem_append]
    exact not_or.mpr ⟨a.property, b.property⟩⟩⟩

@[simp]
theorem val_append (a b : CStr) : (a ++ b).val = a.val ++ b.val := rfl

/-- `strlen` -/
def length (s : CStr) : Nat :=
  s.val.length

theorem length_ofBytes_le (bs : List UInt8) : (ofBytes bs).length ≤ bs.length :=
  (List.takeWhile_sublist _).length_le

theorem ofBytes_val (s : CStr) : ofBytes s.val = s := by
  refine Subtype.ext ?_
  change s.val.takeWhile (· ≠ 0) = s.val
  rw [List.takeWhile_eq_self_iff]
  intro b hb
  have hne : b ≠ 0 := by
    rintro rfl
    exact s.property hb
  simpa using hne

theorem ofBytes_of_notMem {bs : List UInt8} (hbs : 0 ∉ bs) : (ofBytes bs).val = bs :=
  congrArg Subtype.val (ofBytes_val ⟨bs, hbs⟩)

theorem ofBytes_inj {a b : List UInt8} (ha : 0 ∉ a) (hb : 0 ∉ b) (hab : ofBytes a = ofBytes b) :
    a = b := by
  rw [← ofBytes_of_notMem ha, ← ofBytes_of_notMem hb, hab]

/-! ## Taking strings apart -/

/-- The tokens `strtok` returns one after another: the nonempty pieces between separators. -/
def tokens (sep : UInt8) (s : CStr) : List CStr :=
  ((s.val.splitOn sep).filter (· ≠ [])).map ofBytes

/-- `strchr`: what stands before and after the first `c`, if there is one. -/
def breakAt (c : UInt8) (s : CStr) : Option (CStr × CStr) :=
  if c ∈ s.val then
    some (ofBytes (s.val.takeWhile (· ≠ c)), ofBytes ((s.val.dropWhile (· ≠ c)).drop 1))
  else none

/-- `strrchr`: what stands after the last `c`, if there is one. -/
def afterLast (c : UInt8) (s : CStr) : Option CStr :=
  if c ∈ s.val then some (ofBytes (s.val.reverse.takeWhile (· ≠ c)).reverse) else none

/-- `strncmp(s, pre, strlen(pre)) == 0` -/
def startsWith (pre s : CStr) : Bool :=
  pre.val.isPrefixOf s.val

/-- `strstr(s, sub) != NULL` -/
def contains (sub s : CStr) : Bool :=
  s.val.tails.any fun t => sub.val.isPrefixOf t

/-- `strstr`: the rest of the string from the first place where `sub` stands. -/
def strstr (s sub : CStr) : Option (List UInt8) :=
  s.val.tails.find? fun t => sub.val.isPrefixOf t

/-- A byte with an upper-case letter in lower case. -/
def lowerByte (c : UInt8) : UInt8 :=
  if 65 ≤ c && c ≤ 90 then c + 32 else c

/-- `strcasecmp(a, b) == 0` -/
def sameIgnoringCase (a b : CStr) : Bool :=
  a.val.map lowerByte == b.val.map lowerByte

/-! ## Strings and buffers -/

/-- The string in a buffer; without a terminating NUL the source reads past the buffer. -/
def ofBuffer? (bs : List UInt8) : Option CStr :=
  if 0 ∈ bs then some (ofBytes bs) else none

/-- `sprintf` or `strcpy` into `size` bytes; a longer text overruns the buffer. -/
def sprintf (size : Nat) (s : CStr) : Option CStr :=
  if s.length < size then some s else none

/-- `snprintf` into `size` bytes cuts a longer text off. -/
def snprintf (size : Nat) (s : CStr) : CStr :=
  ofBytes (s.val.take (size - 1))

/-- `strchr` takes a text apart at its first `c`. -/
theorem breakAt_eq_some {c : UInt8} {s a b : CStr} (hs : s.val = a.val ++ c :: b.val)
    (ha : c ∉ a.val) : breakAt c s = some (a, b) := by
  have hall : ∀ x ∈ a.val, decide (x ≠ c) = true := by
    intro x hx
    have hne : x ≠ c := by
      rintro rfl
      exact ha hx
    simpa using hne
  have htake : s.val.takeWhile (· ≠ c) = a.val := by
    rw [hs, List.takeWhile_append_of_pos hall]
    simp
  have hdrop : (s.val.dropWhile (· ≠ c)).drop 1 = b.val := by
    rw [hs, List.dropWhile_append_of_pos hall]
    simp
  have hmem : c ∈ s.val := by
    rw [hs]
    simp
  rw [breakAt, if_pos hmem, htake, hdrop, ofBytes_val, ofBytes_val]

theorem ofBuffer?_terminated (s : CStr) : ofBuffer? (s.val ++ [0]) = some s := by
  have htake : (s.val ++ [0]).takeWhile (· ≠ 0) = s.val := by
    rw [List.takeWhile_append_of_pos]
    · simp
    · intro b hb
      have hne : b ≠ 0 := by
        rintro rfl
        exact s.property hb
      simpa using hne
  unfold ofBuffer?
  rw [if_pos (by simp)]
  exact congrArg some (Subtype.ext htake)

theorem sprintf_eq_some {size : Nat} {s r : CStr} (hr : sprintf size s = some r) :
    r = s ∧ s.length < size := by
  unfold sprintf at hr
  split at hr
  · next hlen => exact ⟨(Option.some_inj.mp hr).symm, hlen⟩
  · cases hr

theorem snprintf_of_lt {size : Nat} {s : CStr} (hs : s.length < size) : snprintf size s = s := by
  have htake : s.val.take (size - 1) = s.val := by
    refine List.take_of_length_le ?_
    unfold length at hs
    omega
  rw [snprintf, htake, ofBytes_val]

/-- A text that was cut fits. -/
theorem length_snprintf_lt {size : Nat} (hsize : 0 < size) (s : CStr) :
    (snprintf size s).length < size := by
  have hcut := length_ofBytes_le (s.val.take (size - 1))
  rw [List.length_take] at hcut
  unfold snprintf
  omega

/-! ## Strings and numbers -/

/-- The decimal digits of `n`, least significant first; `fuel` bounds their number. -/
def digitsRev : Nat → Nat → List UInt8
  | 0, _ => []
  | fuel + 1, n =>
      UInt8.ofNat (48 + n % 10) :: if n / 10 = 0 then [] else digitsRev fuel (n / 10)

/-- What `%d` prints. -/
def ofInt (i : Int) : CStr :=
  ofBytes ((if i < 0 then [45] else []) ++ (digitsRev (i.natAbs + 1) i.natAbs).reverse)

/-- `isdigit` -/
def isDigit (c : UInt8) : Bool :=
  48 ≤ c && c ≤ 57

/-- `isspace` -/
def isSpace (c : UInt8) : Bool :=
  c == 32 || (9 ≤ c && c ≤ 13)

/-- The number written by a list of decimal digits. -/
def digitsValue (ds : List UInt8) : Int :=
  ds.foldl (fun v c => 10 * v + (c.toNat - 48)) 0

/-- `atoi`: the library's `strtol`, which stops at the limits of `long`, cut down to an `int`. -/
def atoi (s : CStr) : Int :=
  let body := s.val.dropWhile isSpace
  let long :=
    match body with
    | 45 :: ds => max (-digitsValue (ds.takeWhile isDigit)) (-2 ^ 63)
    | 43 :: ds => min (digitsValue (ds.takeWhile isDigit)) (2 ^ 63 - 1)
    | ds => min (digitsValue (ds.takeWhile isDigit)) (2 ^ 63 - 1)
  long.bmod (2 ^ 32)

theorem isDigit_digit {r : Nat} (hr : r < 10) : isDigit (UInt8.ofNat (48 + r)) = true := by
  revert r
  decide

theorem isDigit_of_mem_digitsRev {fuel n : Nat} {b : UInt8} (hb : b ∈ digitsRev fuel n) :
    isDigit b = true := by
  induction fuel generalizing n with
  | zero => cases hb
  | succ fuel ih =>
      rw [digitsRev, List.mem_cons] at hb
      rcases hb with rfl | hb
      · exact isDigit_digit (Nat.mod_lt n (by decide))
      · split at hb
        · cases hb
        · exact ih hb

theorem length_digitsRev_le {fuel n k : Nat} (hn : n < 10 ^ (k + 1)) :
    (digitsRev fuel n).length ≤ k + 1 := by
  induction fuel generalizing n k with
  | zero => exact Nat.zero_le _
  | succ fuel ih =>
      rw [digitsRev, List.length_cons]
      split
      · exact Nat.le_add_left 1 k
      · next hne =>
          cases k with
          | zero => exact absurd (Nat.div_eq_of_lt hn) hne
          | succ k =>
              refine Nat.succ_le_succ (ih ?_)
              rw [Nat.div_lt_iff_lt_mul (by decide), ← Nat.pow_succ]
              exact hn

/-- The decimal digits of `n`. -/
def decimal (n : Nat) : List UInt8 :=
  (digitsRev (n + 1) n).reverse

theorem isDigit_of_mem_decimal {n : Nat} {b : UInt8} (hb : b ∈ decimal n) : isDigit b = true :=
  isDigit_of_mem_digitsRev (List.mem_reverse.mp hb)

theorem decimal_ne_nil (n : Nat) : decimal n ≠ [] := by
  simp [decimal, digitsRev]

theorem val_ofInt (i : Int) :
    (ofInt i).val = (if i < 0 then [45] else []) ++ decimal i.natAbs := by
  refine ofBytes_of_notMem ?_
  rw [List.mem_append, not_or]
  refine ⟨by split <;> decide, fun hmem => ?_⟩
  exact absurd (isDigit_of_mem_decimal hmem) (by decide)

theorem digitsValue_concat (ds : List UInt8) (c : UInt8) :
    digitsValue (ds ++ [c]) = 10 * digitsValue ds + (c.toNat - 48) := by
  rw [digitsValue, List.foldl_append]
  rfl

theorem digitsValue_digitsRev {fuel n : Nat} (hn : n ≤ fuel) :
    digitsValue (digitsRev (fuel + 1) n).reverse = n := by
  induction fuel generalizing n with
  | zero =>
      obtain rfl := Nat.le_zero.mp hn
      rfl
  | succ fuel ih =>
      have hdigit : ((UInt8.ofNat (48 + n % 10)).toNat : Int) - 48 = (n % 10 : Nat) := by
        rw [UInt8.toNat_ofNat']
        omega
      rw [digitsRev, List.reverse_cons, digitsValue_concat, hdigit]
      split
      · next hzero =>
          rw [List.reverse_nil]
          show 10 * 0 + ((n % 10 : Nat) : Int) = n
          omega
      · next hne =>
          rw [ih (by omega)]
          omega

theorem digitsValue_decimal (n : Nat) : digitsValue (decimal n) = n :=
  digitsValue_digitsRev le_rfl

/-- A digit is neither white space nor a sign. -/
theorem not_isSpace_of_isDigit {d : UInt8} (hd : isDigit d = true) :
    isSpace d = false ∧ d ≠ 45 ∧ d ≠ 43 := by
  rw [isDigit, Bool.and_eq_true, decide_eq_true_eq, decide_eq_true_eq, UInt8.le_iff_toNat_le,
    UInt8.le_iff_toNat_le] at hd
  have hlow : 48 ≤ d.toNat := hd.1
  refine ⟨?_, ?_, ?_⟩
  · rw [isSpace, Bool.or_eq_false_iff, Bool.and_eq_false_iff]
    refine ⟨beq_eq_false_iff_ne.mpr ?_, Or.inr (decide_eq_false ?_)⟩
    · rintro rfl
      exact absurd hlow (by decide)
    · rw [UInt8.le_iff_toNat_le]
      show ¬ d.toNat ≤ 13
      omega
  · rintro rfl
    exact absurd hlow (by decide)
  · rintro rfl
    exact absurd hlow (by decide)

theorem digitsValue_nonneg {ds : List UInt8} (hall : ∀ b ∈ ds, isDigit b = true) :
    0 ≤ digitsValue ds := by
  suffices hfrom : ∀ v : Int, 0 ≤ v →
      0 ≤ ds.foldl (fun v c => 10 * v + ((c.toNat : Int) - 48)) v from
    hfrom 0 (Int.le_refl 0)
  induction ds with
  | nil => exact fun _ hv => hv
  | cons c ds ih =>
      intro v hv
      have hdigit := hall c List.mem_cons_self
      rw [isDigit, Bool.and_eq_true, decide_eq_true_eq, UInt8.le_iff_toNat_le] at hdigit
      have hlow : 48 ≤ c.toNat := hdigit.1
      have hnext : 0 ≤ 10 * v + ((c.toNat : Int) - 48) := by omega
      exact ih (fun b hb => hall b (List.mem_cons_of_mem _ hb)) _ hnext

/-- `atoi` reads the digits of an `int`. -/
theorem atoi_of_digits {s : CStr} (hall : ∀ b ∈ s.val, isDigit b = true)
    (hlt : digitsValue s.val < 2 ^ 31) : atoi s = digitsValue s.val := by
  have hnonneg := digitsValue_nonneg hall
  have hbody : s.val.dropWhile isSpace = s.val := by
    cases hval : s.val with
    | nil => rfl
    | cons d ds =>
        have hd : isDigit d = true := hall d (by rw [hval]; exact List.mem_cons_self)
        rw [List.dropWhile_cons_of_neg (by rw [(not_isSpace_of_isDigit hd).1]; decide)]
  have htake : s.val.takeWhile isDigit = s.val := List.takeWhile_eq_self_iff.mpr hall
  have hsign : ∀ {d ds}, s.val = d :: ds → d ≠ 45 ∧ d ≠ 43 := by
    intro d ds hval
    exact (not_isSpace_of_isDigit (hall d (by rw [hval]; exact List.mem_cons_self))).2
  unfold atoi
  rw [hbody]
  dsimp only
  split
  · next heq => exact absurd rfl (hsign heq).1
  · next heq => exact absurd rfl (hsign heq).2
  · rw [htake, min_eq_left (by omega)]
    exact Int.bmod_eq_of_le (by omega) (by omega)

theorem val_ofInt_natCast (n : Nat) : (ofInt n).val = decimal n := by
  rw [val_ofInt, if_neg (by omega), List.nil_append, Int.natAbs_natCast]

/-- `atoi` reads back the digits of an `int`. -/
theorem atoi_ofInt {n : Nat} (hn : n < 2 ^ 31) : atoi (ofInt n) = n := by
  have hval := val_ofInt_natCast n
  have hvalue := digitsValue_decimal n
  rw [atoi_of_digits] <;> rw [hval]
  · exact hvalue
  · exact fun b hb => isDigit_of_mem_decimal hb
  · omega

/-- The bytes of an `int` in memory. -/
def intBytes (i : Int) : List UInt8 :=
  Lib.ByteCodec.leBytes 4 (i % 2 ^ 32).toNat

/-- `*(int*)data`; a shorter value is read past its end. -/
def readInt (data : List UInt8) : Option Int :=
  (Lib.ByteCodec.readLE 4 data).map fun r => (r.1 : Int).bmod (2 ^ 32)

theorem readInt_intBytes {i : Int} (hlow : -2 ^ 31 ≤ i) (hhigh : i < 2 ^ 31) :
    readInt (intBytes i) = some i := by
  have hmod : (i % 2 ^ 32).toNat < 256 ^ 4 := by omega
  have hread := Lib.ByteCodec.readLE_append hmod []
  rw [List.append_nil] at hread
  have hmodulus : (i % 2 ^ 32).bmod (2 ^ 32) = i.bmod (2 ^ 32) := Int.emod_bmod i (2 ^ 32)
  rw [readInt, intBytes, hread, Option.map_some, Int.toNat_of_nonneg (by omega), hmodulus]
  exact congrArg some (Int.bmod_eq_of_le (by omega) (by omega))

/-- The djb2 hash; `char` is signed and `unsigned long` has 64 bits. -/
def hash (str : CStr) : UInt64 :=
  str.val.foldl (fun hash c => ((hash <<< 5) + hash) + c.toInt8.toInt64.toUInt64) 5381

/-- `hash(key) % capacity` -/
def slot {n : Nat} [NeZero n] (key : CStr) : Fin n :=
  Fin.ofNat n (hash key).toNat

end CStr

end Storage
end InventixDB
