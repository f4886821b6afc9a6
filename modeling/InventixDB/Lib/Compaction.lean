import Mathlib.Data.List.Count
import Mathlib.Data.List.Range
import Mathlib.Data.Nat.Notation

/-!
# Compaction — an array whose gaps are closed in place

The live elements are those below a count.  Closing the gap at a slot moves the live elements
behind it down by one; what stood in the last live slot stays there.  A sweep goes from the last
slot to the first and closes the gap at every slot whose element is marked.
-/

namespace InventixDB
namespace Lib
namespace Compaction

variable {α : Type*}

/-- The memory of an array, and how many of its slots are live. -/
structure Slots (α : Type*) where
  mem : Nat → α
  count : Nat

/-- Close the gap at slot `i`. -/
def closeGap (s : Slots α) (i : Nat) : Slots α where
  mem := fun j => if i ≤ j ∧ j + 1 < s.count then s.mem (j + 1) else s.mem j
  count := s.count - 1

/-- Close the gaps at the marked slots below `i`, the last one first. -/
def sweep (marked : α → Bool) : Nat → Slots α → Slots α
  | 0, s => s
  | i + 1, s => sweep marked i (if marked (s.mem i) then closeGap s i else s)

/-- Taking out the live slots `removed` writes slot `p`: one of them is at or before `p`, and a
live element behind `p` stays. -/
def Writes (count : Nat) (removed : Nat → Prop) (p : Nat) : Prop :=
  (∃ q, q ≤ p ∧ q < count ∧ removed q) ∧ ∃ r, p < r ∧ r < count ∧ ¬ removed r

theorem closeGap_mem_of_lt (s : Slots α) {i j : Nat} (h : j < i) :
    (closeGap s i).mem j = s.mem j := by
  simp [closeGap, Nat.not_le.mpr h]

theorem closeGap_mem_of_last (s : Slots α) (i : Nat) {j : Nat} (h : s.count ≤ j + 1) :
    (closeGap s i).mem j = s.mem j := by
  simp [closeGap, Nat.not_lt.mpr h]

/-- Closing a gap leaves the slots it does not write. -/
theorem closeGap_mem {s : Slots α} {i p : Nat} (hi : i < s.count)
    (hp : ¬ Writes s.count (· = i) p) : (closeGap s i).mem p = s.mem p := by
  rcases Nat.lt_or_ge p i with hbefore | hat
  · exact closeGap_mem_of_lt s hbefore
  · refine closeGap_mem_of_last s i (Nat.le_of_not_lt fun hmore => hp ?_)
    exact ⟨⟨i, hat, hi, rfl⟩, p + 1, Nat.lt_succ_self p, hmore, by omega⟩

/-- A sweep of the slots below `i` leaves the slots it does not write. -/
theorem sweep_mem_of_below {marked : α → Bool} {i p : Nat} {s : Slots α} (hi : i ≤ s.count)
    (hp : ¬ Writes s.count (fun q => q < i ∧ marked (s.mem q) = true) p) :
    (sweep marked i s).mem p = s.mem p := by
  induction i generalizing s with
  | zero => rfl
  | succ i ih =>
      have hlast : i < s.count := hi
      rw [sweep]
      by_cases hmark : marked (s.mem i) = true
      · rw [if_pos hmark]
        have hbelow : ∀ q, q < i → (closeGap s i).mem q = s.mem q :=
          fun q hq => closeGap_mem_of_lt s hq
        have hstay : (closeGap s i).mem p = s.mem p := by
          refine closeGap_mem hlast fun ⟨⟨q, hqp, _, hqi⟩, r, hpr, hr, hri⟩ => hp ?_
          exact ⟨⟨q, hqp, by omega, by omega, by rw [hqi]; exact hmark⟩, r, hpr, hr, by omega⟩
        -- an element behind `p` that the rest of the sweep keeps is one that stood one further
        have hrest : ¬ Writes (closeGap s i).count
            (fun q => q < i ∧ marked ((closeGap s i).mem q) = true) p := by
          rintro ⟨⟨q, hqp, hq, hqi, hqm⟩, r, hpr, hr, hrkeep⟩
          have hcount : (closeGap s i).count = s.count - 1 := rfl
          refine hp ⟨⟨q, hqp, by omega, by omega, by rwa [hbelow q hqi] at hqm⟩, ?_⟩
          rcases Nat.lt_or_ge r i with hri | hri
          · exact ⟨r, hpr, by omega, fun hkept => hrkeep ⟨hri, by rw [hbelow r hri]; exact hkept.2⟩⟩
          · exact ⟨r + 1, by omega, by omega, fun hkept => by omega⟩
        rw [ih (by have hcount : (closeGap s i).count = s.count - 1 := rfl; omega) hrest, hstay]
      · rw [if_neg hmark]
        refine ih (Nat.le_of_lt hlast) fun ⟨⟨q, hqp, hq, hqi, hqm⟩, r, hpr, hr, hrkeep⟩ => hp ?_
        refine ⟨⟨q, hqp, hq, by omega, hqm⟩, r, hpr, hr, fun ⟨hri, hrm⟩ => ?_⟩
        rcases Nat.lt_succ_iff_lt_or_eq.mp hri with hlt | rfl
        · exact hrkeep ⟨hlt, hrm⟩
        · exact hmark hrm

/-- A sweep leaves the slots it does not write. -/
theorem sweep_mem {marked : α → Bool} {p : Nat} {s : Slots α}
    (hp : ¬ Writes s.count (fun q => marked (s.mem q) = true) p) :
    (sweep marked s.count s).mem p = s.mem p := by
  refine sweep_mem_of_below (Nat.le_refl _) fun ⟨⟨q, hqp, hq, _, hqm⟩, r, hpr, hr, hrkeep⟩ => hp ?_
  exact ⟨⟨q, hqp, hq, hqm⟩, r, hpr, hr, fun hrm => hrkeep ⟨hr, hrm⟩⟩

/-- A sweep takes as many elements out of the count as it finds marked. -/
theorem sweep_count (marked : α → Bool) {i : Nat} {s : Slots α} (hi : i ≤ s.count) :
    (sweep marked i s).count + ((List.range i).countP fun q => marked (s.mem q)) = s.count := by
  induction i generalizing s with
  | zero => rfl
  | succ i ih =>
      rw [sweep, List.range_succ, List.countP_append]
      by_cases hmark : marked (s.mem i) = true
      · have hcount : (closeGap s i).count = s.count - 1 := rfl
        have hsame : ((List.range i).countP fun q => marked ((closeGap s i).mem q)) =
            (List.range i).countP fun q => marked (s.mem q) := by
          refine List.countP_congr fun q hq => ?_
          rw [closeGap_mem_of_lt s (List.mem_range.mp hq)]
        have hrest := ih (s := closeGap s i) (by omega)
        rw [hsame] at hrest
        rw [if_pos hmark, List.countP_singleton, if_pos hmark]
        omega
      · have hrest := ih (s := s) (Nat.le_of_lt hi)
        rw [if_neg hmark, List.countP_singleton, if_neg hmark]
        omega

end Compaction
end Lib
end InventixDB
