import Mathlib.Data.List.GetD
import Mathlib.Data.List.TakeDrop
import Mathlib.Data.Vector.Basic

/-!
# PagedFile — a file of fixed-width pages

A page is read at its offset, with a filler where the file has ended, and written there, after
filling up what the file lacks before it.  Writing a page changes this page only.
-/

namespace InventixDB
namespace Lib
namespace PagedFile

variable {α : Type*} {w n m : Nat} (filler : α)

/-- Page `n` of a file in pages of width `w`. -/
def readPage (w n : Nat) (file : List α) : Vector α w :=
  Vector.ofFn fun i => file.getD (n * w + i) filler

def writePage (n : Nat) (data : Vector α w) (file : List α) : List α :=
  file.takeD (n * w) filler ++ (data.toList ++ file.drop (n * w + w))

theorem getD_takeD {k i : Nat} (h : i < k) (file : List α) :
    (file.takeD k filler).getD i filler = file.getD i filler := by
  induction k generalizing i file with
  | zero => exact absurd h (Nat.not_lt_zero i)
  | succ k ih =>
      cases i with
      | zero => cases file <;> rfl
      | succ i =>
          cases file with
          | nil => exact ih (Nat.lt_of_succ_lt_succ h) []
          | cons a file => exact ih (Nat.lt_of_succ_lt_succ h) file

theorem getD_drop (file : List α) (k i : Nat) :
    (file.drop k).getD i filler = file.getD (k + i) filler := by
  rw [List.getD_eq_getElem?_getD, List.getElem?_drop, List.getD_eq_getElem?_getD]

/-- What stands at a place of the file after a page was written. -/
theorem getD_writePage (data : Vector α w) (file : List α) (i : Nat) :
    (writePage filler n data file).getD i filler =
      if n * w ≤ i ∧ i < n * w + w then data.toList.getD (i - n * w) filler
      else file.getD i filler := by
  have hbefore : (file.takeD (n * w) filler).length = n * w := List.takeD_length _ _ _
  have hpage : data.toList.length = w := data.length_toList
  rw [writePage]
  by_cases hi : i < n * w
  · rw [List.getD_append _ _ _ _ (by omega), getD_takeD filler hi, if_neg (by omega)]
  · rw [List.getD_append_right _ _ _ _ (by omega), hbefore]
    by_cases hend : i < n * w + w
    · rw [List.getD_append _ _ _ _ (by omega), if_pos ⟨by omega, hend⟩]
    · rw [List.getD_append_right _ _ _ _ (by omega), if_neg (by omega), hpage, getD_drop]
      congr 1
      omega

theorem readPage_writePage (data : Vector α w) (file : List α) :
    readPage filler w n (writePage filler n data file) = data := by
  refine Vector.ext fun i hi => ?_
  rw [readPage, Vector.getElem_ofFn, getD_writePage, if_pos ⟨by omega, by omega⟩,
    Nat.add_sub_cancel_left, List.getD_eq_getElem _ _ (by rwa [data.length_toList]),
    Vector.getElem_toList]

theorem readPage_writePage_of_ne (h : m ≠ n) (data : Vector α w) (file : List α) :
    readPage filler w m (writePage filler n data file) = readPage filler w m file := by
  refine Vector.ext fun i hi => ?_
  have hapart : ¬ (n * w ≤ m * w + i ∧ m * w + i < n * w + w) := by
    rintro ⟨hle, hlt⟩
    rcases Nat.lt_or_gt_of_ne h with hmn | hmn
    · have hpages := Nat.mul_le_mul_right w (Nat.succ_le_of_lt hmn)
      rw [Nat.succ_mul] at hpages
      omega
    · have hpages := Nat.mul_le_mul_right w (Nat.succ_le_of_lt hmn)
      rw [Nat.succ_mul] at hpages
      omega
  rw [readPage, readPage, Vector.getElem_ofFn, Vector.getElem_ofFn, getD_writePage,
    if_neg hapart]

end PagedFile
end Lib
end InventixDB
