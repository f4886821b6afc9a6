import Mathlib.Data.List.Basic
import Mathlib.Data.List.Count
import Mathlib.Data.List.Infix

/-!
# Budget — events that spend from a limit, and events that renew it

What was spent is counted from the last event that renews the limit on.  As long as the count is
within the limit, no stretch of events without a renewal spends more than that.
-/

namespace InventixDB
namespace Lib
namespace Budget

variable {ε : Type*} (spends renews : ε → Bool)

/-- The count behind the events, where it was `used` before them. -/
def spent : Nat → List ε → Nat
  | used, [] => used
  | used, e :: events =>
      spent (if renews e then 0 else if spends e then used + 1 else used) events

/-- The count never exceeds the limit. -/
def Within (limit : Nat) : Nat → List ε → Prop
  | used, [] => used ≤ limit
  | used, e :: events =>
      used ≤ limit ∧
        Within limit (if renews e then 0 else if spends e then used + 1 else used) events

variable {spends renews} {limit used : Nat} {events events' stretch : List ε}

theorem Within.start (h : Within spends renews limit used events) : used ≤ limit := by
  cases events with
  | nil => exact h
  | cons e events => exact h.1

/-- The events of one step after those of another. -/
theorem within_append : Within spends renews limit used (events ++ events') ↔
    Within spends renews limit used events ∧
      Within spends renews limit (spent spends renews used events) events' := by
  induction events generalizing used with
  | nil => exact ⟨fun h => ⟨h.start, h⟩, fun h => h.2⟩
  | cons e events ih => rw [List.cons_append, Within, Within, spent, ih, and_assoc]

theorem spent_append :
    spent spends renews used (events ++ events') =
      spent spends renews (spent spends renews used events) events' := by
  induction events generalizing used with
  | nil => rfl
  | cons e events ih => exact ih

/-- Without a renewal every event that spends is counted. -/
theorem spent_of_not_renews (hnone : ∀ e ∈ stretch, renews e = false) :
    spent spends renews used stretch = used + stretch.countP spends := by
  induction stretch generalizing used with
  | nil => rfl
  | cons e stretch ih =>
      obtain ⟨he, hnone⟩ := List.forall_mem_cons.mp hnone
      rw [spent, ih hnone, he, List.countP_cons]
      cases spends e with
      | true =>
          simp only [Bool.false_eq_true, if_false, if_true]
          omega
      | false => simp

theorem Within.spent_le (h : Within spends renews limit used events) :
    spent spends renews used events ≤ limit := by
  induction events generalizing used with
  | nil => exact h
  | cons e events ih => exact ih h.2

/-- A stretch without a renewal spends no more than the limit. -/
theorem Within.countP_le (h : Within spends renews limit used events) (hin : stretch <:+: events)
    (hnone : ∀ e ∈ stretch, renews e = false) : stretch.countP spends ≤ limit := by
  obtain ⟨before, behind, rfl⟩ := hin
  rw [List.append_assoc, within_append, within_append] at h
  have hle := h.2.1.spent_le
  rw [spent_of_not_renews hnone] at hle
  omega

end Budget
end Lib
end InventixDB
