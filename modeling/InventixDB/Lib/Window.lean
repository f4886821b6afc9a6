import Mathlib.Data.List.Basic

/-!
# Window — skips and limits

Leaving out the first elements of a list and keeping at most a number of those behind them, again
and again, shows one stretch of the list.
-/

namespace InventixDB
namespace Lib

/-- A stretch of a list: what is left out before it, and its length where that is limited. -/
structure Window where
  skip : Nat
  limit : Option Nat
  deriving DecidableEq, Repr

namespace Window

variable {α : Type*}

/-- The elements that show. -/
def apply (w : Window) (xs : List α) : List α :=
  match w.limit with
  | none => xs.drop w.skip
  | some n => (xs.drop w.skip).take n

def all : Window where
  skip := 0
  limit := none

/-- The window that shows what `v` shows of what `w` shows. -/
def andThen (w v : Window) : Window where
  skip := w.skip + v.skip
  limit :=
    match w.limit, v.limit with
    | none, limit => limit
    | some n, none => some (n - v.skip)
    | some n, some m => some (min m (n - v.skip))

@[simp]
theorem apply_all (xs : List α) : all.apply xs = xs := rfl

@[simp]
theorem apply_nil (w : Window) : w.apply ([] : List α) = [] := by
  obtain ⟨skip, limit⟩ := w
  cases limit with
  | none => simp [apply]
  | some n => simp [apply]

theorem apply_andThen (w v : Window) (xs : List α) :
    (w.andThen v).apply xs = v.apply (w.apply xs) := by
  obtain ⟨skip, limit⟩ := w
  obtain ⟨skip', limit'⟩ := v
  cases limit with
  | none =>
      cases limit' with
      | none => simp [apply, andThen, List.drop_drop]
      | some m => simp [apply, andThen, List.drop_drop]
  | some n =>
      cases limit' with
      | none => simp [apply, andThen, List.drop_drop, List.drop_take]
      | some m => simp [apply, andThen, List.drop_drop, List.drop_take, List.take_take]

end Window

end Lib
end InventixDB
