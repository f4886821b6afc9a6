import InventixDB.Executor.ResultSet

/-!
# SortOrder — when the comparison of rows is an order

Two numbers of a numeric column are compared as numbers, any other two values as strings, and a
value that is missing ties with every other.  A text between two numbers, or a missing value, can
make three rows go round in a circle.
-/

namespace InventixDB
namespace Executor

open Storage
open Lib

/-! ## Numbers -/

/-- Infinities lie outside of the finite doubles. -/
def doubleBand : Double → Int
  | .finite _ => 0
  | .infinite negative => if negative then -1 else 1
  | .nan => 0

def doubleUnits : Double → Int
  | .finite units => units
  | _ => 0

theorem double_lt_iff {x y : Double} (hx : x ≠ .nan) (hy : y ≠ .nan) :
    x.lt y = true ↔
      doubleBand x < doubleBand y ∨
        doubleBand x = doubleBand y ∧ doubleUnits x < doubleUnits y := by
  cases x with
  | nan => exact absurd rfl hx
  | finite a =>
      cases y with
      | nan => exact absurd rfl hy
      | finite b => simp [Double.lt, doubleBand, doubleUnits]
      | infinite negative => cases negative <;> simp [Double.lt, doubleBand, doubleUnits]
  | infinite negative =>
      cases y with
      | nan => exact absurd rfl hy
      | finite b => cases negative <;> simp [Double.lt, doubleBand, doubleUnits]
      | infinite other =>
          cases negative <;> cases other <;> simp [Double.lt, doubleBand, doubleUnits]

theorem double_ext {x y : Double} (hx : x ≠ .nan) (hy : y ≠ .nan)
    (hband : doubleBand x = doubleBand y) (hunits : doubleUnits x = doubleUnits y) : x = y := by
  cases x with
  | nan => exact absurd rfl hx
  | finite a =>
      cases y with
      | nan => exact absurd rfl hy
      | finite b => exact congrArg Double.finite hunits
      | infinite negative => cases negative <;> cases hband
  | infinite negative =>
      cases y with
      | nan => exact absurd rfl hy
      | finite b => cases negative <;> cases hband
      | infinite other => cases negative <;> cases other <;> first | rfl | cases hband

theorem finite_ne_nan (units : Int) : Double.finite units ≠ .nan :=
  fun h => nomatch h

theorem infinite_ne_nan (negative : Bool) : Double.infinite negative ≠ .nan :=
  fun h => nomatch h

theorem double_neg_ne_nan {x : Double} (hx : x ≠ .nan) : x.neg ≠ .nan := by
  cases x with
  | nan => exact absurd rfl hx
  | finite a => exact finite_ne_nan _
  | infinite negative => exact infinite_ne_nan _

theorem double_round_ne_nan (num den : Nat) : Double.round num den ≠ .nan := by
  unfold Double.round
  generalize Double.bound = bound
  generalize Double.unitExponent = e
  dsimp only
  -- the units are rounded up or not
  split
  all_goals
    split
    · exact infinite_ne_nan _
    · exact finite_ne_nan _

theorem readMagnitude_ne_nan {bs : List UInt8} (hbs : CStr.startsWithWord "nan" bs = false) :
    CStr.readMagnitude bs ≠ .nan := by
  have hscaled : ∀ value base exponent, CStr.scaledDouble value base exponent ≠ .nan := by
    intro value base exponent
    cases exponent with
    | ofNat e =>
        rw [CStr.scaledDouble]
        exact double_round_ne_nan _ _
    | negSucc e =>
        rw [CStr.scaledDouble]
        exact double_round_ne_nan _ _
  unfold CStr.readMagnitude
  rw [hbs]
  split
  · exact infinite_ne_nan _
  · rw [if_neg Bool.false_ne_true]
    split
    · exact hscaled _ _ _
    · exact hscaled _ _ _

/-- A byte a number can have behind its sign. -/
def isFigure (d : UInt8) : Bool :=
  d = 46 || CStr.isDigit d

theorem figure_toNat {d : UInt8} (hd : isFigure d = true) : 46 ≤ d.toNat ∧ d.toNat ≤ 57 := by
  simp only [isFigure, CStr.isDigit, Bool.or_eq_true, Bool.and_eq_true, decide_eq_true_eq,
    UInt8.le_iff_toNat_le] at hd
  rcases hd with rfl | ⟨hlow, hhigh⟩
  · decide
  · have hlow : 48 ≤ d.toNat := hlow
    have hhigh : d.toNat ≤ 57 := hhigh
    omega

theorem not_nan_of_figures {bs : List UInt8} (hbs : ∀ d ∈ bs, isFigure d = true) :
    CStr.startsWithWord "nan" bs = false := by
  have hword : (CStr.lit "nan").val = [110, 97, 110] := by rfl
  rw [CStr.startsWithWord, hword]
  cases bs with
  | nil => rfl
  | cons d bs =>
      have hd := figure_toNat (hbs d List.mem_cons_self)
      have hlower : CStr.lowerByte d ≠ 110 := by
        unfold CStr.lowerByte
        split
        next hupper =>
            simp only [Bool.and_eq_true, decide_eq_true_eq, UInt8.le_iff_toNat_le] at hupper
            have hlow : 65 ≤ d.toNat := hupper.1
            omega
        next =>
            rintro rfl
            exact absurd hd.2 (by decide)
      simp [List.isPrefixOf, hlower.symm]

theorem not_space_of_figure {d : UInt8} (hd : d = 45 ∨ d = 43 ∨ isFigure d = true) :
    CStr.isSpace d = false := by
  rcases hd with rfl | rfl | hd
  · rfl
  · rfl
  · have hrange := figure_toNat hd
    by_contra hspace
    simp only [CStr.isSpace, Bool.not_eq_false, Bool.or_eq_true, Bool.and_eq_true, beq_iff_eq,
      decide_eq_true_eq, UInt8.le_iff_toNat_le] at hspace
    rcases hspace with rfl | ⟨_, hhigh⟩
    · exact absurd hrange.1 (by decide)
    · have hhigh : d.toNat ≤ 13 := hhigh
      omega

/-- A numeric string is read as a number. -/
theorem atof_ne_nan {s : CStr} (hs : isNumericString s = true) : CStr.atof s ≠ .nan := by
  unfold isNumericString at hs
  unfold CStr.atof
  cases hval : s.val with
  | nil => rw [hval] at hs; cases hs
  | cons c bs =>
      rw [hval] at hs
      simp only [Bool.and_eq_true, List.all_eq_true] at hs
      have hfirst : c = 45 ∨ c = 43 ∨ isFigure c = true := by
        by_cases hsign : c = 45 ∨ c = 43
        · exact hsign.imp id .inl
        · have hall := hs.1
          rw [if_neg hsign] at hall
          exact .inr (.inr (hall c List.mem_cons_self))
      rw [List.dropWhile_cons_of_neg (by rw [not_space_of_figure hfirst]; decide)]
      have hbs : ∀ d ∈ bs, isFigure d = true := by
        intro d hd
        by_cases hsign : c = 45 ∨ c = 43
        · have hall := hs.1
          rw [if_pos hsign] at hall
          exact hall d hd
        · have hall := hs.1
          rw [if_neg hsign] at hall
          exact hall d (List.mem_cons_of_mem _ hd)
      split
      next => exact double_neg_ne_nan (readMagnitude_ne_nan (not_nan_of_figures (by simp_all)))
      next => exact readMagnitude_ne_nan (not_nan_of_figures (by simp_all))
      next hminus hplus =>
          have hfigure : isFigure c = true :=
            (hfirst.resolve_left fun h => hminus bs (by rw [h])).resolve_left
              fun h => hplus bs (by rw [h])
          exact readMagnitude_ne_nan (not_nan_of_figures (List.forall_mem_cons.mpr ⟨hfigure, hbs⟩))

/-! ## Values -/

/-- The comparison of two values in a column. -/
def compareCells (isNumeric : Bool) (va vb : CStr) : Ordering :=
  if isNumeric && isNumericString va && isNumericString vb then
    if (CStr.atof vb).lt (CStr.atof va) then .gt
    else if (CStr.atof va).lt (CStr.atof vb) then .lt else .eq
  else strcmp va vb

/-- The text stands between two numbers that are not in this order. -/
structure Misplaced (x t y : CStr) : Prop where
  first : isNumericString x = true
  text : isNumericString t = false
  last : isNumericString y = true
  before : x.val < t.val
  behind : t.val < y.val
  order : (CStr.atof x).lt (CStr.atof y) = false

theorem strcmp_eq_lt {a b : CStr} : strcmp a b = .lt ↔ a.val < b.val := by
  unfold strcmp
  split
  next h => simp [h]
  next h => split <;> simp [h]

theorem strcmp_eq_gt {a b : CStr} : strcmp a b = .gt ↔ b.val < a.val := by
  unfold strcmp
  split
  next h => simpa using List.lt_asymm h
  next h => split <;> simp_all

theorem strcmp_eq_eq {a b : CStr} : strcmp a b = .eq ↔ a = b := by
  constructor
  · intro heq
    refine Subtype.ext (List.le_antisymm (fun h => ?_) (fun h => ?_))
    · rw [strcmp_eq_gt.mpr h] at heq
      cases heq
    · rw [strcmp_eq_lt.mpr h] at heq
      cases heq
  · rintro rfl
    rw [strcmp, if_neg (List.lt_irrefl _), if_neg (List.lt_irrefl _)]

theorem compareCells_numbers {x y : CStr} (hx : isNumericString x = true)
    (hy : isNumericString y = true) :
    compareCells true x y =
      if (CStr.atof y).lt (CStr.atof x) then .gt
      else if (CStr.atof x).lt (CStr.atof y) then .lt else .eq := by
  rw [compareCells, hx, hy]
  rfl

theorem compareCells_strings {isNumeric : Bool} {x y : CStr}
    (htext : isNumeric = false ∨ isNumericString x = false ∨ isNumericString y = false) :
    compareCells isNumeric x y = strcmp x y := by
  rw [compareCells, if_neg]
  rcases htext with h | h | h <;> simp [h]

theorem compareCells_swap (isNumeric : Bool) (x y : CStr) :
    compareCells isNumeric y x = (compareCells isNumeric x y).swap := by
  by_cases hnumbers : isNumeric = true ∧ isNumericString x = true ∧ isNumericString y = true
  · obtain ⟨rfl, hx, hy⟩ := hnumbers
    have hxy := double_lt_iff (atof_ne_nan hx) (atof_ne_nan hy)
    have hyx := double_lt_iff (atof_ne_nan hy) (atof_ne_nan hx)
    rw [compareCells_numbers hx hy, compareCells_numbers hy hx]
    by_cases hless : (CStr.atof x).lt (CStr.atof y) = true
    · have hback : ¬ (CStr.atof y).lt (CStr.atof x) = true := by
        rw [hyx]
        rw [hxy] at hless
        omega
      rw [if_pos hless, if_neg hback, if_pos hless]
      rfl
    · rw [if_neg hless, if_neg hless]
      split <;> rfl
  · have htext : isNumeric = false ∨ isNumericString x = false ∨ isNumericString y = false := by
      cases isNumeric <;> cases hx : isNumericString x <;> simp_all
    rw [compareCells_strings htext, compareCells_strings (htext.imp id Or.symm)]
    cases hcmp : strcmp x y with
    | lt => exact strcmp_eq_gt.mpr (strcmp_eq_lt.mp hcmp)
    | eq => exact strcmp_eq_eq.mpr (strcmp_eq_eq.mp hcmp).symm
    | gt => exact strcmp_eq_lt.mpr (strcmp_eq_gt.mp hcmp)

/-- Two numbers, in terms of their place among the doubles. -/
theorem compareCells_isLE_numbers {x y : CStr} (hx : isNumericString x = true)
    (hy : isNumericString y = true) :
    (compareCells true x y).isLE = true ↔ (CStr.atof y).lt (CStr.atof x) = false := by
  rw [compareCells_numbers hx hy]
  split
  next h => simp [h]
  next h => split <;> simp [h]

theorem compareCells_isLE_strings {isNumeric : Bool} {x y : CStr}
    (htext : isNumeric = false ∨ isNumericString x = false ∨ isNumericString y = false) :
    (compareCells isNumeric x y).isLE = true ↔ ¬ y.val < x.val := by
  rw [compareCells_strings htext]
  cases hcmp : strcmp x y with
  | lt => simpa using List.lt_asymm (strcmp_eq_lt.mp hcmp)
  | eq => simpa [strcmp_eq_eq.mp hcmp] using List.lt_irrefl y.val
  | gt => simpa using strcmp_eq_gt.mp hcmp

theorem number_le_trans {x y z : CStr} (hx : isNumericString x = true)
    (hy : isNumericString y = true) (hz : isNumericString z = true)
    (hxy : (CStr.atof y).lt (CStr.atof x) = false) (hyz : (CStr.atof z).lt (CStr.atof y) = false) :
    (CStr.atof z).lt (CStr.atof x) = false := by
  rw [Bool.eq_false_iff, ne_eq, double_lt_iff (atof_ne_nan hy) (atof_ne_nan hx)] at hxy
  rw [Bool.eq_false_iff, ne_eq, double_lt_iff (atof_ne_nan hz) (atof_ne_nan hy)] at hyz
  rw [Bool.eq_false_iff, ne_eq, double_lt_iff (atof_ne_nan hz) (atof_ne_nan hx)]
  omega

theorem string_le_trans {x y z : CStr} (hxy : ¬ y.val < x.val) (hyz : ¬ z.val < y.val) :
    ¬ z.val < x.val :=
  List.le_trans hxy hyz

theorem number_ne_text {x t : CStr} (hx : isNumericString x = true)
    (ht : isNumericString t = false) : x ≠ t := by
  rintro rfl
  rw [hx] at ht
  cases ht

theorem string_lt_of_not {x y : CStr} (hne : x ≠ y) (hxy : ¬ y.val < x.val) : x.val < y.val :=
  (List.le_iff_lt_or_eq.mp hxy).resolve_right fun heq => hne (Subtype.ext heq)

/-- Without a text between two numbers in the wrong order the values are in order. -/
theorem compareCells_trans {V : List CStr} (hV : ∀ x ∈ V, ∀ t ∈ V, ∀ y ∈ V, ¬ Misplaced x t y)
    {x y z : CStr} (hx : x ∈ V) (hy : y ∈ V) (hz : z ∈ V)
    (hxy : (compareCells true x y).isLE = true) (hyz : (compareCells true y z).isLE = true) :
    (compareCells true x z).isLE = true := by
  cases hnx : isNumericString x with
  | false =>
      rw [compareCells_isLE_strings (.inr (.inl hnx))] at hxy ⊢
      cases hny : isNumericString y with
      | false =>
          rw [compareCells_isLE_strings (.inr (.inl hny))] at hyz
          exact string_le_trans hxy hyz
      | true =>
          cases hnz : isNumericString z with
          | false =>
              rw [compareCells_isLE_strings (.inr (.inr hnz))] at hyz
              exact string_le_trans hxy hyz
          | true =>
              -- the text x lies before the number y, and z is no smaller a number
              rw [compareCells_isLE_numbers hny hnz] at hyz
              have hlt := string_lt_of_not (number_ne_text hny hnx).symm hxy
              exact fun hzx => hV z hz x hx y hy ⟨hnz, hnx, hny, hzx, hlt, hyz⟩
  | true =>
      cases hny : isNumericString y with
      | false =>
          rw [compareCells_isLE_strings (.inr (.inr hny))] at hxy
          rw [compareCells_isLE_strings (.inr (.inl hny))] at hyz
          cases hnz : isNumericString z with
          | false =>
              rw [compareCells_isLE_strings (.inr (.inr hnz))]
              exact string_le_trans hxy hyz
          | true =>
              rw [compareCells_isLE_numbers hnx hnz]
              have hbefore := string_lt_of_not (number_ne_text hnx hny) hxy
              have hbehind := string_lt_of_not (number_ne_text hnz hny).symm hyz
              by_contra hback
              refine hV x hx y hy z hz ⟨hnx, hny, hnz, hbefore, hbehind, ?_⟩
              rw [Bool.not_eq_false, double_lt_iff (atof_ne_nan hnz) (atof_ne_nan hnx)] at hback
              rw [Bool.eq_false_iff, ne_eq, double_lt_iff (atof_ne_nan hnx) (atof_ne_nan hnz)]
              omega
      | true =>
          rw [compareCells_isLE_numbers hnx hny] at hxy
          cases hnz : isNumericString z with
          | false =>
              rw [compareCells_isLE_strings (.inr (.inr hnz))] at hyz ⊢
              have hlt := string_lt_of_not (number_ne_text hny hnz) hyz
              exact fun hzx => hV y hy z hz x hx ⟨hny, hnz, hnx, hlt, hzx, hxy⟩
          | true =>
              rw [compareCells_isLE_numbers hny hnz] at hyz
              rw [compareCells_isLE_numbers hnx hnz]
              exact number_le_trans hnx hny hnz hxy hyz

theorem compareCells_eq_trans_of_strings {x y z : CStr}
    (hxy : (compareCells false x y).isLE = true) (hyz : (compareCells false y z).isLE = true) :
    (compareCells false x z).isLE = true := by
  rw [compareCells_isLE_strings (.inl rfl)] at hxy hyz ⊢
  exact string_le_trans hxy hyz

/-! ## Rows -/

/-- What one column says about two rows. -/
def compareColumn (spec : SortSpec) (j : Nat) (ra rb : List CStr) : Ordering :=
  match ra[j]?, rb[j]? with
  | some va, some vb =>
      if spec.descending then (compareCells spec.isNumeric va vb).swap
      else compareCells spec.isNumeric va vb
  | _, _ => .eq

theorem compareRows_cons (spec : SortSpec) (specs : List SortSpec) (ra rb : List CStr) :
    compareRows (spec :: specs) ra rb =
      spec.columnIndex.bind fun j =>
        if compareColumn spec j ra rb = .eq then compareRows specs ra rb
        else some (compareColumn spec j ra rb) := by
  rw [compareRows]
  cases spec.columnIndex with
  | none => rfl
  | some j =>
      simp only [Option.bind_eq_bind, Option.bind_some]
      unfold compareColumn
      cases ra[j]? with
      | none => rfl
      | some va =>
          cases rb[j]? with
          | none => rfl
          | some vb =>
              change (if compareCells spec.isNumeric va vb = .eq then compareRows specs ra rb
                else some (if spec.descending then (compareCells spec.isNumeric va vb).swap
                  else compareCells spec.isNumeric va vb)) = _
              dsimp only
              have hswap : (if spec.descending then (compareCells spec.isNumeric va vb).swap
                  else compareCells spec.isNumeric va vb) = .eq ↔
                    compareCells spec.isNumeric va vb = .eq := by
                cases spec.descending <;> simp
              by_cases heq : compareCells spec.isNumeric va vb = .eq
              · rw [if_pos heq, if_pos (hswap.mpr heq)]
              · rw [if_neg heq, if_neg (mt hswap.mp heq)]

/-- The values of a column. -/
def cells (j : Nat) (rows : List (List CStr)) : List CStr :=
  rows.filterMap fun row => row[j]?

/-- The two values tie. -/
def SameValue (isNumeric : Bool) (x y : CStr) : Prop :=
  x = y ∨ isNumeric = true ∧ isNumericString x = true ∧ isNumericString y = true ∧
    CStr.atof x = CStr.atof y

/-- The column is there, its values are in an order, and they all tie if a row lacks one. -/
def ColumnSorts (spec : SortSpec) (rows : List (List CStr)) : Prop :=
  ∃ j, spec.columnIndex = some j ∧
    (spec.isNumeric = true →
      ∀ x ∈ cells j rows, ∀ t ∈ cells j rows, ∀ y ∈ cells j rows, ¬ Misplaced x t y) ∧
    ((∃ row ∈ rows, row.length ≤ j) →
      ∀ x ∈ cells j rows, ∀ y ∈ cells j rows, SameValue spec.isNumeric x y)

/-- The rows tie in the column, where both have a value. -/
def Ties (spec : SortSpec) (ra rb : List CStr) : Prop :=
  ∀ j ∈ spec.columnIndex, ∀ x ∈ ra[j]?, ∀ y ∈ rb[j]?, SameValue spec.isNumeric x y

/-- Each column sorts the rows that tie in all columns before it. -/
def SortsAmong : List SortSpec → List (List CStr) → Prop
  | [], _ => True
  | spec :: specs, rows => ColumnSorts spec rows ∧
      ∀ tied, tied ≠ [] → (∀ row ∈ tied, row ∈ rows) →
        (∀ ra ∈ tied, ∀ rb ∈ tied, Ties spec ra rb) → SortsAmong specs tied

/-- Each row has a value in the column, and no text stands between two equal numbers of it. -/
def Definite (spec : SortSpec) (rows : List (List CStr)) : Prop :=
  ∀ j ∈ spec.columnIndex, (∀ row ∈ rows, j < row.length) ∧
    ∀ x ∈ cells j rows, ∀ t ∈ cells j rows, ∀ y ∈ cells j rows, Misplaced x t y →
      (CStr.atof y).lt (CStr.atof x) = true

theorem compareCells_eq_iff {isNumeric : Bool} {x y : CStr} :
    compareCells isNumeric x y = .eq ↔ SameValue isNumeric x y := by
  unfold SameValue
  by_cases hnumbers : isNumeric = true ∧ isNumericString x = true ∧ isNumericString y = true
  · obtain ⟨rfl, hx, hy⟩ := hnumbers
    rw [compareCells_numbers hx hy]
    have hxy := double_lt_iff (atof_ne_nan hx) (atof_ne_nan hy)
    have hyx := double_lt_iff (atof_ne_nan hy) (atof_ne_nan hx)
    constructor
    · intro heq
      refine .inr ⟨rfl, hx, hy, ?_⟩
      split at heq
      next => cases heq
      next hgt =>
          split at heq
          next => cases heq
          next hlt =>
              rw [hyx] at hgt
              rw [hxy] at hlt
              exact double_ext (atof_ne_nan hx) (atof_ne_nan hy) (by omega) (by omega)
    · intro hsame
      have hval : CStr.atof x = CStr.atof y := by
        rcases hsame with rfl | ⟨_, _, _, h⟩
        · rfl
        · exact h
      have hself : ¬ (CStr.atof y).lt (CStr.atof y) = true := by
        rw [double_lt_iff (atof_ne_nan hy) (atof_ne_nan hy)]
        omega
      rw [hval, if_neg hself, if_neg hself]
  · have htext : isNumeric = false ∨ isNumericString x = false ∨ isNumericString y = false := by
      cases isNumeric <;> cases hx : isNumericString x <;> simp_all
    rw [compareCells_strings htext, strcmp_eq_eq]
    constructor
    · exact .inl
    · rintro (h | ⟨h, hx, hy, _⟩)
      · exact h
      · exact absurd ⟨h, hx, hy⟩ hnumbers

theorem compareColumn_swap (spec : SortSpec) (j : Nat) (ra rb : List CStr) :
    compareColumn spec j rb ra = (compareColumn spec j ra rb).swap := by
  unfold compareColumn
  cases ra[j]? with
  | none => cases rb[j]? <;> rfl
  | some va =>
      cases rb[j]? with
      | none => rfl
      | some vb =>
          dsimp only
          rw [compareCells_swap]
          cases spec.descending <;> rfl

theorem mem_cells {j : Nat} {rows : List (List CStr)} {row : List CStr} (hrow : row ∈ rows)
    {v : CStr} (hv : row[j]? = some v) : v ∈ cells j rows :=
  List.mem_filterMap.mpr ⟨row, hrow, hv⟩

theorem compareColumn_eq_iff {spec : SortSpec} {j : Nat} (hj : spec.columnIndex = some j)
    {ra rb : List CStr} : compareColumn spec j ra rb = .eq ↔ Ties spec ra rb := by
  have hties : Ties spec ra rb ↔
      ∀ x ∈ ra[j]?, ∀ y ∈ rb[j]?, SameValue spec.isNumeric x y := by
    refine ⟨fun h => h j hj, fun h i hi => ?_⟩
    cases hj.symm.trans hi
    exact h
  rw [hties, compareColumn]
  cases ra[j]? with
  | none => exact iff_of_true rfl nofun
  | some va =>
      cases rb[j]? with
      | none => exact iff_of_true rfl fun _ _ => nofun
      | some vb =>
          simp only [Option.mem_def, Option.some.injEq, forall_eq', ← compareCells_eq_iff]
          split
          · exact Ordering.swap_eq_eq
          · exact Iff.rfl

theorem compareColumn_antisymm {spec : SortSpec} {j : Nat} {ra rb : List CStr}
    (hab : (compareColumn spec j ra rb).isLE = true)
    (hba : (compareColumn spec j rb ra).isLE = true) : compareColumn spec j ra rb = .eq := by
  rw [compareColumn_swap] at hba
  cases hcmp : compareColumn spec j ra rb with
  | lt => rw [hcmp] at hba; cases hba
  | eq => rfl
  | gt => rw [hcmp] at hab; cases hab

/-- A column that sorts is a total preorder of the rows. -/
theorem compareColumn_trans {spec : SortSpec} {rows : List (List CStr)}
    {j : Nat} (hj : spec.columnIndex = some j) (hvalues : spec.isNumeric = true →
      ∀ x ∈ cells j rows, ∀ t ∈ cells j rows, ∀ y ∈ cells j rows, ¬ Misplaced x t y)
    (hmissing : (∃ row ∈ rows, row.length ≤ j) →
      ∀ x ∈ cells j rows, ∀ y ∈ cells j rows, SameValue spec.isNumeric x y)
    {a b c : List CStr} (ha : a ∈ rows) (hb : b ∈ rows) (hc : c ∈ rows)
    (hab : (compareColumn spec j a b).isLE = true) (hbc : (compareColumn spec j b c).isLE = true) :
    (compareColumn spec j a c).isLE = true := by
  by_cases hrow : ∃ row ∈ rows, row.length ≤ j
  · have hties : Ties spec a c := by
      intro i hi x hx y hy
      cases hj.symm.trans hi
      exact hmissing hrow x (mem_cells ha hx) y (mem_cells hc hy)
    rw [(compareColumn_eq_iff hj).mpr hties]
    rfl
  · have hfull : ∀ row ∈ rows, ∃ v, row[j]? = some v ∧ v ∈ cells j rows := by
      intro row hmem
      have hlen : j < row.length := by
        by_contra hshort
        exact hrow ⟨row, hmem, by omega⟩
      exact ⟨_, List.getElem?_eq_getElem hlen, mem_cells hmem (List.getElem?_eq_getElem hlen)⟩
    obtain ⟨va, hva, hma⟩ := hfull a ha
    obtain ⟨vb, hvb, hmb⟩ := hfull b hb
    obtain ⟨vc, hvc, hmc⟩ := hfull c hc
    have htrans : ∀ {x y z : CStr}, x ∈ cells j rows → y ∈ cells j rows → z ∈ cells j rows →
        (compareCells spec.isNumeric x y).isLE = true →
          (compareCells spec.isNumeric y z).isLE = true →
            (compareCells spec.isNumeric x z).isLE = true := by
      intro x y z hx hy hz
      cases hnumeric : spec.isNumeric with
      | true => exact compareCells_trans (hvalues hnumeric) hx hy hz
      | false => exact compareCells_eq_trans_of_strings
    simp only [compareColumn, hva, hvb, hvc] at hab hbc ⊢
    cases hdescending : spec.descending with
    | false =>
        rw [hdescending] at hab hbc
        exact htrans hma hmb hmc hab hbc
    | true =>
        -- in descending order the comparison is made the other way round
        simp only [hdescending, if_true, ← compareCells_swap] at hab hbc ⊢
        exact htrans hmc hmb hma hbc hab

/-! ## Sorting -/

/-- On these rows the comparison reads what is there, and is a total preorder. -/
structure PreordersRows (specs : List SortSpec) (rows : List (List CStr)) : Prop where
  defined : ∀ a ∈ rows, ∀ b ∈ rows, ∃ cmp, compareRows specs a b = some cmp
  swap : ∀ a ∈ rows, ∀ b ∈ rows, ∀ cmp, compareRows specs a b = some cmp →
    compareRows specs b a = some cmp.swap
  trans : ∀ a ∈ rows, ∀ b ∈ rows, ∀ c ∈ rows, compareRows specs a b ≠ some .gt →
    compareRows specs b c ≠ some .gt → compareRows specs a c ≠ some .gt

def SortsSoundly (rs : ResultSet) (specs : List SortSpec) : Prop :=
  PreordersRows specs rs.rows ∧
    ∃ sorted, resultSetSortMulti rs specs = some sorted ∧ sorted.rows.Perm rs.rows ∧
      sorted.rows.Pairwise fun a b => compareRows specs a b ≠ some .gt

theorem PreordersRows.orders {specs : List SortSpec} {rows : List (List CStr)}
    (hrows : PreordersRows specs rows) :
    PartialSort.Orders (fun a b => (compareRows specs a b).map (· ≠ .gt)) rows where
  defined := by
    intro a ha b hb
    obtain ⟨cmp, hcmp⟩ := hrows.defined a ha b hb
    exact ⟨_, by rw [hcmp]; rfl⟩
  total := by
    intro a ha b hb hback
    obtain ⟨cmp, hcmp⟩ := hrows.defined a ha b hb
    rw [hrows.swap a ha b hb cmp hcmp]
    rw [hcmp] at hback
    cases cmp <;> simp_all
  trans := by
    have hmap : ∀ {o : Option Ordering}, o.map (fun cmp => decide (cmp ≠ .gt)) = some true ↔
        (∃ cmp, o = some cmp) ∧ o ≠ some .gt := by
      intro o
      cases o with
      | none => simp
      | some cmp => cases cmp <;> simp
    intro a ha b hb c hc hab hbc
    rw [hmap] at hab hbc ⊢
    exact ⟨hrows.defined a ha c hc, hrows.trans a ha b hb c hc hab.2 hbc.2⟩

/-- A total preorder sorts. -/
theorem PreordersRows.sorts {rs : ResultSet} {specs : List SortSpec}
    (hrows : PreordersRows specs rs.rows) : SortsSoundly rs specs := by
  refine ⟨hrows, ?_⟩
  by_cases hfew : specs = [] ∨ rs.rows.length < 2
  · refine ⟨rs, by rw [resultSetSortMulti, if_pos hfew], List.Perm.refl _, ?_⟩
    rcases hfew with rfl | hshort
    · exact List.pairwise_of_forall fun a b h => nomatch h
    · cases hcases : rs.rows with
      | nil => exact .nil
      | cons a rest =>
          rw [hcases, List.length_cons] at hshort
          rw [List.length_eq_zero_iff.mp (by omega : rest.length = 0)]
          exact List.pairwise_singleton _ a
  · obtain ⟨rows, hsort, hsorted⟩ := PartialSort.sort_sorted hrows.orders
    refine ⟨{ rs with rows := rows }, by rw [resultSetSortMulti, if_neg hfew, hsort]; rfl,
      PartialSort.sort_perm hsort, hsorted.imp fun {a b} hab hgt => ?_⟩
    dsimp only at hab
    rw [hgt] at hab
    cases hab

theorem compareRows_of_column {spec : SortSpec} {specs : List SortSpec} {j : Nat}
    (hj : spec.columnIndex = some j) (ra rb : List CStr) :
    compareRows (spec :: specs) ra rb =
      if compareColumn spec j ra rb = .eq then compareRows specs ra rb
      else some (compareColumn spec j ra rb) := by
  rw [compareRows_cons, hj, Option.bind_some]

theorem isLE_of_compareRows {spec : SortSpec} {specs : List SortSpec} {j : Nat}
    (hj : spec.columnIndex = some j) {ra rb : List CStr}
    (hle : compareRows (spec :: specs) ra rb ≠ some .gt) :
    (compareColumn spec j ra rb).isLE = true := by
  rw [compareRows_of_column hj] at hle
  cases hcmp : compareColumn spec j ra rb with
  | lt => rfl
  | eq => rfl
  | gt => simp [hcmp] at hle

/-- Where the first column tells rows apart it is an order, and the others sort the rows that
tie. -/
theorem preordersRows_of_sortsAmong {specs : List SortSpec} {rows : List (List CStr)}
    (hspecs : SortsAmong specs rows) : PreordersRows specs rows := by
  induction specs generalizing rows with
  | nil =>
      exact ⟨fun _ _ _ _ => ⟨.eq, rfl⟩, fun _ _ _ _ cmp hcmp => by cases hcmp; rfl,
        fun _ _ _ _ _ _ _ _ h => nomatch h⟩
  | cons spec specs ih =>
      obtain ⟨⟨j, hj, hvalues, hmissing⟩, hlater⟩ := hspecs
      have hself : ∀ a, compareColumn spec j a a = .eq :=
        fun a => (compareColumn_eq_iff hj).mpr fun _ _ x hx y hy => .inl (Option.mem_unique hx hy)
      have htied : ∀ tied, tied ≠ [] → (∀ row ∈ tied, row ∈ rows) →
          (∀ a ∈ tied, ∀ b ∈ tied, compareColumn spec j a b = .eq) → PreordersRows specs tied :=
        fun tied hne hmem hties =>
          ih (hlater tied hne hmem fun a ha b hb => (compareColumn_eq_iff hj).mp (hties a ha b hb))
      have hpair : ∀ a ∈ rows, ∀ b ∈ rows, compareColumn spec j a b = .eq →
          PreordersRows specs [a, b] := by
        intro a ha b hb hab
        refine htied _ (by simp) (by simp [ha, hb]) ?_
        have hba : compareColumn spec j b a = .eq := by rw [compareColumn_swap, hab]; rfl
        simp [hself, hab, hba]
      have htrans := fun {a b c} ha hb hc => @compareColumn_trans spec rows j hj hvalues hmissing
        a b c ha hb hc
      refine ⟨fun a ha b hb => ?_, fun a ha b hb cmp hcmp => ?_,
        fun a ha b hb c hc hab hbc => ?_⟩
      · rw [compareRows_of_column hj]
        split
        next hab => exact (hpair a ha b hb hab).defined a (by simp) b (by simp)
        next => exact ⟨_, rfl⟩
      · rw [compareRows_of_column hj] at hcmp ⊢
        rw [compareColumn_swap]
        by_cases hab : compareColumn spec j a b = .eq
        · rw [if_pos hab] at hcmp
          rw [hab]
          exact (hpair a ha b hb hab).swap a (by simp) b (by simp) cmp hcmp
        · rw [if_neg hab] at hcmp
          cases hcmp
          rw [if_neg (mt Ordering.swap_eq_eq.mp hab)]
      · have hle := isLE_of_compareRows hj hab
        have hle' := isLE_of_compareRows hj hbc
        have hac := htrans ha hb hc hle hle'
        rw [compareRows_of_column hj]
        split
        next heq =>
            -- all three tie, and the other columns decide
            have hca : (compareColumn spec j c a).isLE = true := by
              rw [compareColumn_swap, heq]; rfl
            have hab' := compareColumn_antisymm hle (htrans hb hc ha hle' hca)
            have hbc' := compareColumn_antisymm hle' (htrans hc ha hb hca hle)
            have hback : ∀ {x y}, compareColumn spec j x y = .eq →
                compareColumn spec j y x = .eq := by
              intro x y hxy
              rw [compareColumn_swap, hxy]; rfl
            rw [compareRows_of_column hj, if_pos hab'] at hab
            rw [compareRows_of_column hj, if_pos hbc'] at hbc
            refine (htied [a, b, c] (by simp) (by simp [ha, hb, hc]) ?_).trans a (by simp) b
              (by simp) c (by simp) hab hbc
            simp [hself, hab', hbc', heq, hback hab', hback hbc', hback heq]
        next hne =>
            intro hgt
            rw [Option.some.inj hgt] at hac
            cases hac

/-! ## What an order asks of its columns -/

/-- With rows to compare, an order needs its column. -/
theorem PreordersRows.column {spec : SortSpec} {specs : List SortSpec} {rows : List (List CStr)}
    (hrows : PreordersRows (spec :: specs) rows) (hne : rows ≠ []) :
    ∃ j, spec.columnIndex = some j := by
  obtain ⟨row, rest, rfl⟩ := List.exists_cons_of_ne_nil hne
  obtain ⟨cmp, hcmp⟩ := hrows.defined row List.mem_cons_self row List.mem_cons_self
  rw [compareRows_cons] at hcmp
  obtain ⟨j, hj, _⟩ := Option.bind_eq_some_iff.mp hcmp
  exact ⟨j, hj⟩

/-- The rows that tie in the first column are in order by the others. -/
theorem PreordersRows.tied {spec : SortSpec} {specs : List SortSpec} {rows tied : List (List CStr)}
    {j : Nat} (hrows : PreordersRows (spec :: specs) rows) (hj : spec.columnIndex = some j)
    (hmem : ∀ row ∈ tied, row ∈ rows) (hties : ∀ a ∈ tied, ∀ b ∈ tied, Ties spec a b) :
    PreordersRows specs tied := by
  have heq : ∀ a ∈ tied, ∀ b ∈ tied, compareRows (spec :: specs) a b = compareRows specs a b :=
    fun a ha b hb => by
      rw [compareRows_of_column hj, if_pos ((compareColumn_eq_iff hj).mpr (hties a ha b hb))]
  refine ⟨fun a ha b hb => ?_, fun a ha b hb => ?_, fun a ha b hb c hc => ?_⟩
  · rw [← heq a ha b hb]
    exact hrows.defined a (hmem a ha) b (hmem b hb)
  · rw [← heq a ha b hb, ← heq b hb a ha]
    exact hrows.swap a (hmem a ha) b (hmem b hb)
  · rw [← heq a ha b hb, ← heq b hb c hc, ← heq a ha c hc]
    exact hrows.trans a (hmem a ha) b (hmem b hb) c (hmem c hc)

/-- In either direction, values that are strictly in order one after the other go round in no
circle. -/
theorem PreordersRows.no_circle {spec : SortSpec} {specs : List SortSpec}
    {rows : List (List CStr)} {j : Nat} (hrows : PreordersRows (spec :: specs) rows)
    (hj : spec.columnIndex = some j) {x t y : CStr} (hx : x ∈ cells j rows) (ht : t ∈ cells j rows)
    (hy : y ∈ cells j rows) (hxt : compareCells spec.isNumeric x t = .lt)
    (hty : compareCells spec.isNumeric t y = .lt) : compareCells spec.isNumeric x y ≠ .gt := by
  obtain ⟨a, ha, hax⟩ := List.mem_filterMap.mp hx
  obtain ⟨b, hb, hbt⟩ := List.mem_filterMap.mp ht
  obtain ⟨c, hc, hcy⟩ := List.mem_filterMap.mp hy
  intro hgt
  have hstrict : ∀ {ra rb : List CStr}, compareColumn spec j ra rb ≠ .eq →
      compareRows (spec :: specs) ra rb = some (compareColumn spec j ra rb) :=
    fun hne => by rw [compareRows_of_column hj, if_neg hne]
  have hcolumn : ∀ {ra rb : List CStr} {va vb : CStr}, ra[j]? = some va → rb[j]? = some vb →
      compareColumn spec j ra rb = if spec.descending then (compareCells spec.isNumeric va vb).swap
        else compareCells spec.isNumeric va vb :=
    fun hva hvb => by rw [compareColumn, hva, hvb]
  have hback : ∀ {va vb : CStr}, compareCells spec.isNumeric vb va =
      (compareCells spec.isNumeric va vb).swap := compareCells_swap _ _ _
  cases hdescending : spec.descending with
  | false =>
      refine hrows.trans a ha b hb c hc ?_ ?_ ?_ <;>
        rw [hstrict (by rw [hcolumn ‹_› ‹_›]; simp [*]), hcolumn ‹_› ‹_›] <;> simp [*]
  | true =>
      refine hrows.trans c hc b hb a ha ?_ ?_ ?_ <;>
        rw [hstrict (by rw [hcolumn ‹_› ‹_›]; simp [*]), hcolumn ‹_› ‹_›] <;> simp [*]

theorem compareRows_one {spec : SortSpec} {j : Nat} (hj : spec.columnIndex = some j)
    (ra rb : List CStr) : compareRows [spec] ra rb = some (compareColumn spec j ra rb) := by
  rw [compareRows_of_column hj]
  split
  next heq => rw [heq]; rfl
  next => rfl

theorem PreordersRows.columnTrans {spec : SortSpec} {rows : List (List CStr)} {j : Nat}
    (hrows : PreordersRows [spec] rows) (hj : spec.columnIndex = some j)
    {a b c : List CStr} (ha : a ∈ rows) (hb : b ∈ rows) (hc : c ∈ rows)
    (hab : (compareColumn spec j a b).isLE = true) (hbc : (compareColumn spec j b c).isLE = true) :
    (compareColumn spec j a c).isLE = true := by
  have hle : ∀ o : Ordering, some o ≠ some .gt ↔ o.isLE = true := by
    intro o
    cases o <;> simp
  have htrans := hrows.trans a ha b hb c hc
  rw [compareRows_one hj, compareRows_one hj, compareRows_one hj, hle, hle, hle] at htrans
  exact htrans hab hbc

/-- In either direction the values of the column are in order. -/
theorem PreordersRows.cellsTrans {spec : SortSpec} {rows : List (List CStr)} {j : Nat}
    (hrows : PreordersRows [spec] rows) (hj : spec.columnIndex = some j) {x y z : CStr}
    (hx : x ∈ cells j rows) (hy : y ∈ cells j rows) (hz : z ∈ cells j rows)
    (hxy : (compareCells spec.isNumeric x y).isLE = true)
    (hyz : (compareCells spec.isNumeric y z).isLE = true) :
    (compareCells spec.isNumeric x z).isLE = true := by
  obtain ⟨a, ha, hax⟩ := List.mem_filterMap.mp hx
  obtain ⟨b, hb, hby⟩ := List.mem_filterMap.mp hy
  obtain ⟨c, hc, hcz⟩ := List.mem_filterMap.mp hz
  cases hdescending : spec.descending with
  | false =>
      have htrans := hrows.columnTrans hj ha hb hc
      simp only [compareColumn, hax, hby, hcz, hdescending, Bool.false_eq_true, if_false] at htrans
      exact htrans hxy hyz
  | true =>
      have htrans := hrows.columnTrans hj hc hb ha
      simp only [compareColumn, hax, hby, hcz, hdescending, if_true, ← compareCells_swap] at htrans
      exact htrans hyz hxy

theorem columnSorts_of_preordersRows {spec : SortSpec} {rows : List (List CStr)}
    (hrows : PreordersRows [spec] rows) (hne : rows ≠ []) : ColumnSorts spec rows := by
  obtain ⟨j, hj⟩ := hrows.column hne
  refine ⟨j, hj, fun hnumeric x hx t ht y hy hmisplaced => ?_, ?_⟩
  · -- y ≤ x and x ≤ t, although t < y
    obtain ⟨hnx, hnt, hny, hbefore, hbehind, horder⟩ := hmisplaced
    have htrans := hrows.cellsTrans hj hy hx ht
    rw [hnumeric, compareCells_isLE_numbers hny hnx, compareCells_isLE_strings (.inr (.inr hnt)),
      compareCells_isLE_strings (.inr (.inr hnt))] at htrans
    exact htrans horder (List.lt_asymm hbefore) hbehind
  · rintro ⟨row, hrow, hshort⟩ x hx y hy
    obtain ⟨a, ha, hax⟩ := List.mem_filterMap.mp hx
    obtain ⟨b, hb, hby⟩ := List.mem_filterMap.mp hy
    -- both rows tie with the one that lacks the value
    have hmissing : row[j]? = none := List.getElem?_eq_none hshort
    have hties : ∀ other : List CStr, compareColumn spec j other row = .eq ∧
        compareColumn spec j row other = .eq := by
      intro other
      have htie : compareColumn spec j row other = .eq := by
        rw [compareColumn, hmissing]
      exact ⟨by rw [compareColumn_swap, htie]; rfl, htie⟩
    have hle : ∀ {ra rb : List CStr}, ra ∈ rows → rb ∈ rows →
        (compareColumn spec j ra rb).isLE = true := by
      intro ra rb hra hrb
      refine hrows.columnTrans hj hra hrow hrb ?_ ?_
      · rw [(hties ra).1]; rfl
      · rw [(hties rb).2]; rfl
    have hsame := compareColumn_antisymm (hle ha hb) (hle hb ha)
    exact (compareColumn_eq_iff hj).mp hsame j hj x hax y hby

/-- A definite column can only be out of order in a circle. -/
theorem columnSorts_of_definite {spec : SortSpec} {specs : List SortSpec}
    {rows : List (List CStr)} (hrows : PreordersRows (spec :: specs) rows) (hne : rows ≠ [])
    (hdefinite : Definite spec rows) : ColumnSorts spec rows := by
  obtain ⟨j, hj⟩ := hrows.column hne
  obtain ⟨hfull, hapart⟩ := hdefinite j hj
  refine ⟨j, hj, fun hnumeric x hx t ht y hy hmisplaced => ?_, ?_⟩
  · have hback := hapart x hx t ht y hy hmisplaced
    obtain ⟨hnx, hnt, hny, hbefore, hbehind, _⟩ := hmisplaced
    refine hrows.no_circle hj hx ht hy ?_ ?_ ?_
    · rw [compareCells_strings (.inr (.inr hnt))]
      exact strcmp_eq_lt.mpr hbefore
    · rw [compareCells_strings (.inr (.inl hnt))]
      exact strcmp_eq_lt.mpr hbehind
    · rw [hnumeric, compareCells_numbers hnx hny, if_pos hback]
  · rintro ⟨row, hrow, hshort⟩
    exact absurd (hfull row hrow) (Nat.not_lt.mpr hshort)

theorem sortsAmong_of_preordersRows {specs : List SortSpec} {rows : List (List CStr)}
    (hrows : PreordersRows specs rows) (hne : rows ≠ [])
    (hdefinite : ∀ spec ∈ specs.dropLast, Definite spec rows) : SortsAmong specs rows := by
  induction specs generalizing rows with
  | nil => trivial
  | cons spec specs ih =>
      obtain ⟨j, hj⟩ := hrows.column hne
      have hlater : ∀ tied, tied ≠ [] → (∀ row ∈ tied, row ∈ rows) →
          (∀ ra ∈ tied, ∀ rb ∈ tied, Ties spec ra rb) → SortsAmong specs tied := by
        intro tied hne hmem hties
        refine ih (hrows.tied hj hmem hties) hne fun other hother => ?_
        have hcells : ∀ i, ∀ v ∈ cells i tied, v ∈ cells i rows := by
          intro i v hv
          obtain ⟨row, hrow, hget⟩ := List.mem_filterMap.mp hv
          exact mem_cells (hmem row hrow) hget
        intro i hi
        have hother' : other ∈ (spec :: specs).dropLast := by
          cases specs with
          | nil => cases hother
          | cons next specs => exact List.mem_cons_of_mem _ hother
        obtain ⟨hfull, hapart⟩ := hdefinite other hother' i hi
        exact ⟨fun row hrow => hfull row (hmem row hrow), fun x hx t ht y hy =>
          hapart x (hcells i x hx) t (hcells i t ht) y (hcells i y hy)⟩
      cases specs with
      | nil => exact ⟨columnSorts_of_preordersRows hrows hne, hlater⟩
      | cons next specs =>
          exact ⟨columnSorts_of_definite hrows hne (hdefinite spec List.mem_cons_self), hlater⟩

/-- The columns of an ORDER BY are there, and each has its values in order among the rows that tie
before it: then the rows are sorted.  Nothing less is enough for a single column, nor behind columns
that have a value in each row and no text between two equal numbers. -/
theorem sortsSoundly_iff (rs : ResultSet) (specs : List SortSpec) :
    ((rs.rows = [] ∨ SortsAmong specs rs.rows) → SortsSoundly rs specs) ∧
      ((∀ spec ∈ specs.dropLast, Definite spec rs.rows) → SortsSoundly rs specs →
        rs.rows = [] ∨ SortsAmong specs rs.rows) := by
  refine ⟨?_, fun hdefinite hsound => ?_⟩
  · rintro (hempty | hspecs)
    · refine PreordersRows.sorts ?_
      rw [hempty]
      exact ⟨(fun _ h => nomatch h), (fun _ h => nomatch h), (fun _ h => nomatch h)⟩
    · exact (preordersRows_of_sortsAmong hspecs).sorts
  · by_cases hempty : rs.rows = []
    · exact .inl hempty
    · exact .inr (sortsAmong_of_preordersRows hsound.1 hempty hdefinite)

/-- A numeric column with the values `9`, `10` and `1a`, among more columns than have names. -/
def circleColumns : List (CStr × Option CStr) :=
  List.replicate 65 (CStr.lit "v", some (CStr.lit "INT"))

def circleResult : ResultSet :=
  ["9", "10", "1a"].foldl
    (fun rs value => resultSetAddRow rs (List.replicate 65 (CStr.lit value)))
    (resultSetFor circleColumns)

/-- The rows `9`, `10`, `1a` and `9` go round in a circle. -/
theorem sort_circle :
    [(CStr.lit "v", false)].mapM (sortSpec circleResult) = some [⟨some 0, false, true⟩] ∧
      ¬ SortsSoundly circleResult [⟨some 0, false, true⟩] := by
  refine ⟨by decide +kernel, fun hsound => ?_⟩
  have hcolumns : (resultSetFor circleColumns).rows = [] := by decide +kernel
  have hrows : circleResult.rows =
      ["9", "10", "1a"].map fun value => List.replicate 65 (CStr.lit value) := by
    simp [circleResult, resultSetAddRow, hcolumns]
  have hcompare : ∀ ra rb : List CStr, compareRows [⟨some 0, false, true⟩] ra rb =
      some (compareColumn ⟨some 0, false, true⟩ 0 ra rb) := compareRows_one rfl
  have htrans := hsound.1.trans (List.replicate 65 (CStr.lit "9")) (by simp [hrows])
    (List.replicate 65 (CStr.lit "10")) (by simp [hrows])
    (List.replicate 65 (CStr.lit "1a")) (by simp [hrows])
  simp only [hcompare, compareColumn, List.getElem?_replicate_of_lt (show 0 < 65 by decide),
    Bool.false_eq_true, if_false] at htrans
  have hcells : compareCells true (CStr.lit "9") (CStr.lit "10") = .lt ∧
      compareCells true (CStr.lit "10") (CStr.lit "1a") = .lt ∧
        compareCells true (CStr.lit "9") (CStr.lit "1a") = .gt := by decide +kernel
  rw [hcells.1, hcells.2.1, hcells.2.2] at htrans
  exact htrans (by decide) (by decide) rfl

end Executor
end InventixDB
