import InventixDB.Storage.Double
import Mathlib.Algebra.Order.Ring.Int
import Mathlib.Tactic.Ring

/-!
# ExactDouble — whole numbers that a double holds

Below 2⁵³ nothing is rounded: `atof` reads back the digits of a whole number, sums and comparisons
are those of the numbers, and the printed text is their own.
-/

namespace InventixDB
namespace Storage

/-- No number of this size is rounded. -/
def exactBelow : Nat := 2 ^ 53

namespace Double

theorem round_whole {num den : Nat} (hden : 0 < den) (hnum : num < exactBelow) :
    round (num * den) den = .finite ↑(num * 2 ^ unitExponent) := by
  unfold round bound
  generalize unitExponent = e
  have hscaled : num * den * 2 ^ e / den = num * 2 ^ e := by
    rw [Nat.mul_right_comm, Nat.mul_div_cancel _ hden]
  dsimp only
  rw [hscaled]
  obtain ⟨shift, hshift⟩ : ∃ shift, shift = Nat.log2 (num * 2 ^ e) - 52 := ⟨_, rfl⟩
  have hle : shift ≤ e := by
    rw [hshift]
    rcases Nat.eq_zero_or_pos num with rfl | hpos
    · rw [Nat.zero_mul]
      exact Nat.zero_le _
    · have hne : num * 2 ^ e ≠ 0 := (Nat.mul_pos hpos (Nat.two_pow_pos e)).ne'
      have hlt : Nat.log2 (num * 2 ^ e) < 53 + e := by
        rw [Nat.log2_lt hne, Nat.pow_add]
        exact Nat.mul_lt_mul_of_pos_right hnum (Nat.two_pow_pos e)
      omega
  obtain ⟨up, rfl⟩ := Nat.exists_eq_add_of_le hle
  have hsplit : num * den * 2 ^ (shift + up) = den * 2 ^ shift * (num * 2 ^ up) := by
    rw [Nat.pow_add]
    ring
  have hstep : 0 < den * 2 ^ shift := Nat.mul_pos hden (Nat.two_pow_pos shift)
  have hback : num * 2 ^ up * 2 ^ shift = num * 2 ^ (shift + up) := by
    rw [Nat.pow_add]
    ring
  have hbound : ¬ 2 ^ (1024 + (shift + up)) ≤ num * 2 ^ (shift + up) := by
    have hexp : 53 ≤ 1024 := by decide
    generalize 1024 = big at hexp ⊢
    rw [Nat.pow_add, Nat.not_le]
    refine Nat.mul_lt_mul_of_pos_right (hnum.trans_le ?_) (Nat.two_pow_pos _)
    exact Nat.pow_le_pow_right (by decide) hexp
  have hdown : ∀ p, ¬ (2 * 0 > den * 2 ^ shift ∨ 2 * 0 = den * 2 ^ shift ∧ p) := by
    intro p
    omega
  rw [← hshift, hsplit, Nat.mul_div_cancel_left _ hstep, Nat.mul_mod_right, if_neg (hdown _),
    hback, if_neg hbound, ← hback]
  simp only [Nat.cast_mul, Nat.cast_pow, Nat.cast_ofNat]

theorem roundUnits_whole {i : Int} (hi : i.natAbs < exactBelow) :
    roundUnits (i * 2 ^ unitExponent) 1 = .finite (i * 2 ^ unitExponent) := by
  have hround := round_whole (Nat.two_pow_pos unitExponent) hi
  unfold roundUnits
  generalize unitExponent = e at hround ⊢
  have hpos : (0 : Int) < 2 ^ e := Int.pow_pos (by decide)
  have habs : (i * 2 ^ e).natAbs = i.natAbs * 2 ^ e := by
    rw [Int.natAbs_mul, Int.natAbs_pow]
    rfl
  dsimp only
  rw [habs, Nat.mul_one, hround]
  by_cases hneg : i < 0
  · rw [if_pos (Int.mul_neg_of_neg_of_pos hneg hpos), neg, finite.injEq, Int.natCast_mul,
      Int.ofNat_natAbs_of_nonpos hneg.le, Int.neg_mul, Int.neg_neg]
    rfl
  · rw [if_neg (Int.not_lt.mpr (Int.mul_nonneg (Int.not_lt.mp hneg) hpos.le)), finite.injEq,
      Int.natCast_mul, Int.natAbs_of_nonneg (Int.not_lt.mp hneg)]
    rfl

end Double

namespace SignedDouble

theorem add_ofInt {i j : Int} (hsum : (i + j).natAbs < exactBelow) :
    (ofInt i).add (ofInt j) = ofInt (i + j) := by
  have hvalue : (ofInt i).value.add (ofInt j).value =
      .finite ((i + j) * 2 ^ Double.unitExponent) := by
    show Double.roundUnits (i * 2 ^ Double.unitExponent + j * 2 ^ Double.unitExponent) 1 = _
    rw [← Int.add_mul, Double.roundUnits_whole hsum]
  unfold add
  rw [hvalue, if_neg (show (ofInt i).value ≠ .nan from nofun),
    if_neg (show (ofInt j).value ≠ .nan from nofun),
    if_neg (show Double.finite _ ≠ .nan from nofun)]
  unfold ofInt
  generalize Double.unitExponent = e
  have hpos : (0 : Int) < 2 ^ e := Int.pow_pos (by decide)
  congr 1
  by_cases hzero : i + j = 0
  · rw [hzero, Int.zero_mul, if_pos rfl]
    have hsigns : ¬ (i < 0 ∧ j < 0) := by omega
    rw [← Bool.decide_and, decide_eq_false hsigns]
    rfl
  · have hne : Double.finite ((i + j) * 2 ^ e) ≠ .finite 0 := by
      rw [ne_eq, Double.finite.injEq]
      exact Int.mul_ne_zero hzero hpos.ne'
    rw [if_neg hne, Double.lt, decide_eq_decide]
    refine ⟨fun h => ?_, fun h => Int.mul_neg_of_neg_of_pos h hpos⟩
    by_contra hle
    exact absurd h (Int.not_lt.mpr (Int.mul_nonneg (Int.not_lt.mp hle) hpos.le))

theorem lt_ofInt (i j : Int) : (ofInt i).value.lt (ofInt j).value = decide (i < j) := by
  unfold ofInt
  generalize Double.unitExponent = e
  have hpos : (0 : Int) < 2 ^ e := Int.pow_pos (by decide)
  rw [Double.lt, decide_eq_decide]
  exact ⟨fun h => Int.lt_of_mul_lt_mul_right h hpos.le,
    fun h => Int.mul_lt_mul_of_pos_right h hpos⟩

end SignedDouble

namespace CStr

theorem decDigit_of_isDigit {c : UInt8} (hc : isDigit c = true) :
    decDigit c = some (c.toNat - 48) := if_pos hc

theorem lowerByte_of_isDigit {c : UInt8} (hc : isDigit c = true) : lowerByte c = c := by
  rw [isDigit, Bool.and_eq_true, decide_eq_true_eq, decide_eq_true_eq, UInt8.le_iff_toNat_le,
    UInt8.le_iff_toNat_le] at hc
  have hhigh : c.toNat ≤ 57 := hc.2
  have hletter : ¬ 65 ≤ c.toNat := by omega
  rw [lowerByte, if_neg]
  rw [Bool.and_eq_true, decide_eq_true_eq, UInt8.le_iff_toNat_le]
  exact fun h => hletter h.1

/-- No number starts with a word that has a letter. -/
theorem startsWithWord_of_digits {word : String} {ds : List UInt8}
    (hword : ∃ c ∈ (lit word).val, isDigit c = false)
    (hall : ∀ c ∈ ds, isDigit c = true) : startsWithWord word ds = false := by
  rw [startsWithWord, Bool.eq_false_iff]
  intro hprefix
  obtain ⟨c, hc, hletter⟩ := hword
  have hmem := (List.isPrefixOf_iff_prefix.mp hprefix).subset hc
  obtain ⟨d, hd, rfl⟩ := List.mem_map.mp hmem
  rw [lowerByte_of_isDigit (hall d hd), hall d hd] at hletter
  cases hletter

theorem readDigits_of_digits {ds : List UInt8} (hall : ∀ c ∈ ds, isDigit c = true) (value : Nat) :
    readDigits decDigit 10 false value 0 ds =
      ((ds.foldl (fun v c => 10 * v + ((c.toNat : Int) - 48)) ↑value).toNat, 0, []) := by
  induction ds generalizing value with
  | nil => rfl
  | cons c ds ih =>
      have hc := hall c List.mem_cons_self
      have hlow : 48 ≤ c.toNat := by
        rw [isDigit, Bool.and_eq_true, decide_eq_true_eq, UInt8.le_iff_toNat_le] at hc
        exact hc.1
      rw [readDigits, decDigit_of_isDigit hc]
      dsimp only
      rw [if_neg Bool.false_ne_true, ih (fun d hd => hall d (List.mem_cons_of_mem _ hd)),
        List.foldl_cons]
      congr 4
      omega

theorem readMagnitude_decimal {n : Nat} (hn : n < exactBelow) :
    readMagnitude (decimal n) = .finite ↑(n * 2 ^ Double.unitExponent) := by
  have hall : ∀ c ∈ decimal n, isDigit c = true := fun _ hc => isDigit_of_mem_decimal hc
  have hvalue : ((decimal n).foldl (fun v c => 10 * v + ((c.toNat : Int) - 48)) ↑(0 : Nat)).toNat =
      n := by
    show (digitsValue (decimal n)).toNat = n
    rw [digitsValue_decimal, Int.toNat_natCast]
  rw [readMagnitude, startsWithWord_of_digits ⟨105, by decide, by decide⟩ hall,
    startsWithWord_of_digits ⟨110, by decide, by decide⟩ hall,
    startsWithWord_of_digits ⟨120, by decide, by decide⟩ hall, if_neg Bool.false_ne_true,
    if_neg Bool.false_ne_true, if_neg Bool.false_ne_true, readDigits_of_digits hall, hvalue]
  have hround := Double.round_whole Nat.one_pos hn
  rw [Nat.mul_one] at hround
  exact (congrArg (fun num => Double.round num 1) (Nat.mul_one n)).trans hround

/-- `atof` reads back the digits of a whole number. -/
theorem atofSigned_ofInt {i : Int} (hi : i.natAbs < exactBelow) :
    atofSigned (ofInt i) = SignedDouble.ofInt i := by
  obtain ⟨d, ds, hdecimal⟩ := List.exists_cons_of_ne_nil (decimal_ne_nil i.natAbs)
  have hd : isDigit d = true :=
    isDigit_of_mem_decimal (hdecimal ▸ List.mem_cons_self)
  obtain ⟨hspace, hminus, hplus⟩ := not_isSpace_of_isDigit hd
  have hread := readMagnitude_decimal hi
  by_cases hneg : i < 0
  · have hbody : (ofInt i).val.dropWhile isSpace = 45 :: decimal i.natAbs := by
      rw [val_ofInt, if_pos hneg]
      rfl
    have hpoint : d ≠ 46 := by
      rintro rfl
      exact absurd hd (by decide)
    have hstarts : startsNumber (decimal i.natAbs) = true := by
      rw [hdecimal, startsNumber, Bool.or_eq_true]
      · exact .inr hd
      · exact fun _ _ h => absurd h hpoint
    have hvalue : (Double.finite ↑(i.natAbs * 2 ^ Double.unitExponent)).neg =
        .finite (i * 2 ^ Double.unitExponent) := by
      rw [Double.neg, Int.natCast_mul, Int.ofNat_natAbs_of_nonpos hneg.le, Int.neg_mul,
        Int.neg_neg]
      simp only [Nat.cast_pow, Nat.cast_ofNat]
    rw [atofSigned, atof, hbody]
    show SignedDouble.mk (startsNumber (decimal i.natAbs))
      (readMagnitude (decimal i.natAbs)).neg = _
    rw [hread, hvalue, hstarts, SignedDouble.ofInt, decide_eq_true hneg]
  · have hbody : (ofInt i).val.dropWhile isSpace = decimal i.natAbs := by
      rw [val_ofInt, if_neg hneg, List.nil_append, hdecimal,
        List.dropWhile_cons_of_neg (by rw [hspace]; decide)]
    have hvalue : (↑(i.natAbs * 2 ^ Double.unitExponent) : Int) =
        i * 2 ^ Double.unitExponent := by
      rw [Int.natCast_mul, Int.natAbs_of_nonneg (Int.not_lt.mp hneg)]
      simp only [Nat.cast_pow, Nat.cast_ofNat]
    rw [hvalue] at hread
    rw [atofSigned, atof, hbody, hdecimal]
    split
    · next heq => exact absurd (List.cons.inj heq).1 hminus
    · split
      · next heq => exact absurd (List.cons.inj heq).1 hminus
      · next heq => exact absurd (List.cons.inj heq).1 hplus
      · rw [← hdecimal, hread, SignedDouble.ofInt, decide_eq_false hneg]

end CStr

end Storage
end InventixDB
