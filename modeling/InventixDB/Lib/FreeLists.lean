import Mathlib.Data.List.Basic
import Mathlib.Logic.Function.Basic

/-!
# FreeLists — lists threaded through the cells they hold

Each cell holds the next one, and the last one `null`.  Cells that are not in the list can hold
anything.
-/

namespace InventixDB
namespace Lib

variable {α : Type*}

/-- From `head` on, the cells lead to each other, and the last one to `null`. -/
def Threaded (null : α) (next : α → α) : α → List α → Prop
  | head, [] => head = null
  | head, cell :: cells => head = cell ∧ cell ≠ null ∧ Threaded null next (next cell) cells

namespace Threaded

variable {null head cell : α} {next next' : α → α} {cells : List α}

theorem eq_nil (h : Threaded null next null cells) : cells = [] := by
  cases cells with
  | nil => rfl
  | cons cell cells => exact absurd h.1.symm h.2.1

theorem eq_cons (h : Threaded null next head cells) (hhead : head ≠ null) :
    ∃ rest, cells = head :: rest ∧ Threaded null next (next head) rest := by
  cases cells with
  | nil => exact absurd h hhead
  | cons cell rest =>
      obtain ⟨rfl, -, hrest⟩ := h
      exact ⟨rest, rfl, hrest⟩

/-- What other cells hold does not matter. -/
theorem congr (h : Threaded null next head cells) (hsame : ∀ cell ∈ cells, next' cell = next cell) :
    Threaded null next' head cells := by
  induction cells generalizing head with
  | nil => exact h
  | cons cell cells ih =>
      obtain ⟨hhead, hnull, hrest⟩ := h
      refine ⟨hhead, hnull, ?_⟩
      rw [hsame cell List.mem_cons_self]
      exact ih hrest fun other hother => hsame other (List.mem_cons_of_mem _ hother)

variable [DecidableEq α]

theorem update (h : Threaded null next head cells) (hcell : cell ∉ cells) (value : α) :
    Threaded null (Function.update next cell value) head cells :=
  h.congr fun _ hother => Function.update_of_ne (ne_of_mem_of_not_mem hother hcell) _ _

/-- A cell that is put in front holds what was the head. -/
theorem push (h : Threaded null next head cells) (hcell : cell ∉ cells) (hnull : cell ≠ null) :
    Threaded null (Function.update next cell head) cell (cell :: cells) := by
  refine ⟨rfl, hnull, ?_⟩
  rw [Function.update_self]
  exact h.update hcell head

end Threaded
end Lib
end InventixDB
