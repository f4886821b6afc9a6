import InventixDB.Storage.CStr

/-!
# Double — the numbers `atof` reads

A finite double is the whole number of 2⁻¹⁰⁷⁴ in it: every double is a multiple of the least one.
That is all a comparison sees; where a double is printed, its sign bit goes with it.
-/

namespace InventixDB
namespace Storage

inductive Double
  | finite (units : Int)
  | infinite (negative : Bool)
  | nan
  deriving DecidableEq

namespace Double

/-- The exponent of the least double, as a power of one half. -/
def unitExponent : Nat := 1074

/-- The doubles end below 2¹⁰²⁴. -/
def bound : Nat := 2 ^ (1024 + unitExponent)

/-- `num / den` rounded to 53 bits, ties to even. -/
def round (num den : Nat) : Double :=
  let scaled := num * 2 ^ unitExponent
  let shift := Nat.log2 (scaled / den) - 52
  let step := den * 2 ^ shift
  let below := scaled / step
  let rest := scaled % step
  let units := (if 2 * rest > step ∨ (2 * rest = step ∧ below % 2 = 1) then below + 1 else below)
  if bound ≤ units * 2 ^ shift then .infinite false else .finite (units * 2 ^ shift)

def neg : Double → Double
  | .finite units => .finite (-units)
  | .infinite negative => .infinite !negative
  | .nan => .nan

/-- `x < y` -/
def lt : Double → Double → Bool
  | .finite a, .finite b => a < b
  | .finite _, .infinite negative => !negative
  | .infinite negative, .finite _ => negative
  | .infinite a, .infinite b => a && !b
  | _, _ => false

/-- `x == y`: no number equals a NaN. -/
def eq : Double → Double → Bool
  | .nan, _ => false
  | x, y => x = y

/-- `units / den` in the least double, rounded. -/
def roundUnits (units : Int) (den : Nat) : Double :=
  let magnitude := round units.natAbs (2 ^ unitExponent * den)
  if units < 0 then magnitude.neg else magnitude

/-- `x + y` -/
def add : Double → Double → Double
  | .finite a, .finite b => roundUnits (a + b) 1
  | .infinite a, .infinite b => if a = b then .infinite a else .nan
  | .infinite a, .finite _ => .infinite a
  | .finite _, .infinite b => .infinite b
  | _, _ => .nan

/-- `x / count` -/
def divNat (x : Double) (count : Nat) : Double :=
  match x with
  | .finite units => roundUnits units count
  | _ => x

end Double

/-- A double with its sign bit. -/
structure SignedDouble where
  negative : Bool
  value : Double
  deriving DecidableEq

namespace SignedDouble

/-- The double of a whole number. -/
def ofInt (i : Int) : SignedDouble where
  negative := i < 0
  value := .finite (i * 2 ^ Double.unitExponent)

/-- `x + y`: a sum of zero is negative only if both zeros are.  A NaN keeps its sign; the one that
two infinities make is negative. -/
def add (x y : SignedDouble) : SignedDouble where
  negative :=
    if x.value.add y.value = .finite 0 then x.negative && y.negative
    else if x.value = .nan then x.negative
    else if y.value = .nan then y.negative
    else if x.value.add y.value = .nan then true
    else (x.value.add y.value).lt (.finite 0)
  value := x.value.add y.value

/-- `x / count` -/
def divNat (x : SignedDouble) (count : Nat) : SignedDouble where
  negative := x.negative
  value := x.value.divNat count

/-- The hundredths in a finite double, ties to even. -/
def hundredths (units : Int) : Nat :=
  let scaled := units.natAbs * 100
  let step := 2 ^ Double.unitExponent
  let below := scaled / step
  let rest := scaled % step
  if 2 * rest > step ∨ (2 * rest = step ∧ below % 2 = 1) then below + 1 else below

/-- `%.2f` -/
def toText (x : SignedDouble) : CStr :=
  let sign := if x.negative then CStr.lit "-" else CStr.lit ""
  match x.value with
  | .finite units =>
      let shown := hundredths units
      sign ++ CStr.ofInt ↑(shown / 100) ++ CStr.lit "." ++ CStr.ofInt ↑(shown / 10 % 10) ++
        CStr.ofInt ↑(shown % 10)
  | .infinite _ => sign ++ CStr.lit "inf"
  | .nan => sign ++ CStr.lit "nan"

end SignedDouble

namespace CStr

/-! ## Reading numbers -/

/-- The number written by hexadecimal digits, if `c` is one. -/
def hexDigit (c : UInt8) : Option Nat :=
  if isDigit c then some (c.toNat - 48)
  else
    let lower := lowerByte c
    if 97 ≤ lower && lower ≤ 102 then some (lower.toNat - 87) else none

def decDigit (c : UInt8) : Option Nat :=
  if isDigit c then some (c.toNat - 48) else none

/-- Digits of one base with at most one point between them: their number, how many of them stand
behind the point, and the rest of the text. -/
def readDigits (digit : UInt8 → Option Nat) (base : Nat) :
    Bool → Nat → Nat → List UInt8 → Nat × Nat × List UInt8
  | _, value, behind, [] => (value, behind, [])
  | point, value, behind, c :: bs =>
      match digit c with
      | some d =>
          readDigits digit base point (base * value + d) (if point then behind + 1 else behind) bs
      | none =>
          if c = 46 && !point then readDigits digit base true value behind bs
          else (value, behind, c :: bs)

/-- An exponent after the letter `letter`, `0` where there is none. -/
def readExponent (letter : UInt8) : List UInt8 → Int
  | [] => 0
  | c :: bs =>
      if lowerByte c = letter then
        match bs with
        | 45 :: ds => -digitsValue (ds.takeWhile isDigit)
        | 43 :: ds => digitsValue (ds.takeWhile isDigit)
        | ds => digitsValue (ds.takeWhile isDigit)
      else 0

/-- A text that starts with a word, in any case. -/
def startsWithWord (word : String) (bs : List UInt8) : Bool :=
  (lit word).val.isPrefixOf (bs.map lowerByte)

/-- `value · base ^ exponent` as a double -/
def scaledDouble (value base : Nat) (exponent : Int) : Double :=
  match exponent with
  | .ofNat e => Double.round (value * base ^ e) 1
  | .negSucc e => Double.round value (base ^ (e + 1))

/-- A text without sign: a hexadecimal or decimal number, an infinity or a NaN.  What is no number
reads as zero. -/
def readMagnitude (bs : List UInt8) : Double :=
  if startsWithWord "inf" bs then .infinite false
  else if startsWithWord "nan" bs then .nan
  else if startsWithWord "0x" bs then
    let (value, behind, rest) := readDigits hexDigit 16 false 0 0 (bs.drop 2)
    scaledDouble value 2 (readExponent 112 rest - 4 * behind)
  else
    let (value, behind, rest) := readDigits decDigit 10 false 0 0 bs
    scaledDouble value 10 (readExponent 101 rest - behind)

/-- `atof` -/
def atof (s : CStr) : Double :=
  match s.val.dropWhile isSpace with
  | 45 :: bs => (readMagnitude bs).neg
  | 43 :: bs => readMagnitude bs
  | bs => readMagnitude bs

/-- A text without sign that starts with a number; `atof` reads any other as a positive zero. -/
def startsNumber (bs : List UInt8) : Bool :=
  startsWithWord "inf" bs || startsWithWord "nan" bs ||
    match bs with
    | 46 :: c :: _ => isDigit c
    | c :: _ => isDigit c
    | [] => false

/-- `atof`, with the sign bit. -/
def atofSigned (s : CStr) : SignedDouble where
  negative :=
    match s.val.dropWhile isSpace with
    | 45 :: bs => startsNumber bs
    | _ => false
  value := atof s

example : (atofSigned (lit "-0.125")).toText = lit "-0.12" := by decide +kernel

example : (atof (lit "01.50")).eq (atof (lit " 1.5e0")) = true := by decide +kernel

end CStr

end Storage
end InventixDB
