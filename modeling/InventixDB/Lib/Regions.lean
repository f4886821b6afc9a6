import Mathlib.Algebra.BigOperators.Group.List.Basic
import Mathlib.Algebra.GroupWithZero.Nat
import Mathlib.Algebra.Order.BigOperators.Group.List
import Mathlib.Algebra.Order.Group.Nat
import Mathlib.Order.Interval.Finset.Nat

/-!
# Regions — pieces of an address space

Regions that are apart from each other take no more room together than there are addresses.  Sums of
machine words are read as numbers, for the lengths of many regions.
-/

namespace InventixDB
namespace Lib

/-- The addresses from `base` on, `len` of them. -/
structure Region where
  base : Nat
  len : Nat
  deriving DecidableEq

namespace Region

/-- The first address behind the region. -/
def stop (r : Region) : Nat :=
  r.base + r.len

/-- One region ends before the other one starts. -/
def Apart (r s : Region) : Prop :=
  r.stop ≤ s.base ∨ s.stop ≤ r.base

def Inside (r s : Region) : Prop :=
  s.base ≤ r.base ∧ r.stop ≤ s.stop

instance (r s : Region) : Decidable (r.Apart s) :=
  inferInstanceAs (Decidable (_ ∨ _))

instance (r s : Region) : Decidable (r.Inside s) :=
  inferInstanceAs (Decidable (_ ∧ _))

variable {r r' s s' : Region}

theorem Apart.symm (h : r.Apart s) : s.Apart r :=
  Or.symm h

theorem Inside.trans (h : r.Inside r') (h' : r'.Inside s) : r.Inside s :=
  ⟨h'.1.trans h.1, h.2.trans h'.2⟩

theorem Apart.mono (h : r'.Apart s') (hr : r.Inside r') (hs : s.Inside s') : r.Apart s := by
  rcases h with h | h
  · exact .inl (hr.2.trans (h.trans hs.1))
  · exact .inr (hs.2.trans (h.trans hr.1))

/-- All addresses of the regions. -/
def cover : List Region → Finset Nat
  | [] => ∅
  | r :: regions => Finset.Ico r.base r.stop ∪ cover regions

theorem mem_cover {regions : List Region} {x : Nat} :
    x ∈ cover regions ↔ ∃ r ∈ regions, r.base ≤ x ∧ x < r.stop := by
  induction regions with
  | nil => simp [cover]
  | cons r regions ih => simp [cover, ih]

theorem card_cover {regions : List Region} (hapart : regions.Pairwise Apart) :
    (cover regions).card = (regions.map len).sum := by
  induction regions with
  | nil => rfl
  | cons r regions ih =>
      obtain ⟨hfirst, hrest⟩ := List.pairwise_cons.mp hapart
      have hdisjoint : Disjoint (Finset.Ico r.base r.stop) (cover regions) := by
        rw [Finset.disjoint_left]
        intro x hx hcover
        obtain ⟨s, hs, hlow, hhigh⟩ := mem_cover.mp hcover
        obtain ⟨hlow', hhigh'⟩ := Finset.mem_Ico.mp hx
        rcases hfirst s hs with h | h
        · omega
        · omega
      rw [cover, Finset.card_union_of_disjoint hdisjoint, ih hrest, Nat.card_Ico, List.map_cons,
        List.sum_cons, stop, Nat.add_sub_cancel_left]

/-- Regions apart from each other fit below a bound together when each of them does. -/
theorem sum_len_le {regions : List Region} {bound : Nat} (hapart : regions.Pairwise Apart)
    (hbound : ∀ r ∈ regions, r.stop ≤ bound) : (regions.map len).sum ≤ bound := by
  rw [← card_cover hapart, ← Finset.card_range bound]
  refine Finset.card_le_card fun x hx => ?_
  obtain ⟨r, hr, -, hstop⟩ := mem_cover.mp hx
  exact Finset.mem_range.mpr (hstop.trans_le (hbound r hr))

end Region

/-! ## Machine sums -/

theorem toNat_foldl_add {α : Type*} (f : α → UInt64) (xs : List α) (total : UInt64) :
    (xs.foldl (fun total x => total + f x) total).toNat
      = (total.toNat + (xs.map fun x => (f x).toNat).sum) % 2 ^ 64 := by
  induction xs generalizing total with
  | nil => exact (Nat.mod_eq_of_lt total.toNat_lt).symm
  | cons x xs ih =>
      rw [List.foldl_cons, ih, UInt64.toNat_add, List.map_cons, List.sum_cons]
      omega

end Lib
end InventixDB
