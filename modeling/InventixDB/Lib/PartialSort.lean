import Mathlib.Data.List.Perm.Basic
import Mathlib.Data.List.TakeDrop

/-!
# PartialSort — merge sort by a comparison that may have no result

`le x y` is `none` where the comparison cannot be made; a sort that makes such a comparison has no
result either.  The sort splits in halves and takes from the left where both sides are equal.
-/

namespace InventixDB
namespace Lib

namespace PartialSort

variable {α : Type*}

/-- Merges two sorted lists. -/
def merge (le : α → α → Option Bool) : List α → List α → Option (List α)
  | [], ys => some ys
  | x :: xs, [] => some (x :: xs)
  | x :: xs, y :: ys =>
      (le x y).bind fun first =>
        if first then (merge le xs (y :: ys)).map (x :: ·)
        else (merge le (x :: xs) ys).map (y :: ·)
termination_by xs ys => xs.length + ys.length

/-- The recursion halves the list, so its length is more than enough fuel. -/
def sortFrom (le : α → α → Option Bool) : Nat → List α → Option (List α)
  | 0, xs => some xs
  | fuel + 1, xs =>
      if xs.length < 2 then some xs
      else do
        let left ← sortFrom le fuel (xs.take (xs.length / 2))
        let right ← sortFrom le fuel (xs.drop (xs.length / 2))
        merge le left right

def sort (le : α → α → Option Bool) (xs : List α) : Option (List α) :=
  sortFrom le xs.length xs

theorem merge_perm {le : α → α → Option Bool} {xs ys merged : List α}
    (hmerge : merge le xs ys = some merged) : merged.Perm (xs ++ ys) := by
  induction xs, ys using merge.induct generalizing merged with
  | case1 ys =>
      rw [merge] at hmerge
      cases hmerge
      exact List.Perm.refl _
  | case2 x xs =>
      rw [merge] at hmerge
      cases hmerge
      rw [List.append_nil]
  | case3 x xs y ys ihl ihr =>
      rw [merge] at hmerge
      obtain ⟨first, _, hmerge⟩ := Option.bind_eq_some_iff.mp hmerge
      cases first with
      | true =>
          obtain ⟨rest, hrest, rfl⟩ := Option.map_eq_some_iff.mp hmerge
          exact (ihl hrest).cons x
      | false =>
          obtain ⟨rest, hrest, rfl⟩ := Option.map_eq_some_iff.mp hmerge
          exact ((ihr hrest).cons y).trans List.perm_middle.symm

theorem sortFrom_perm {le : α → α → Option Bool} {fuel : Nat} {xs sorted : List α}
    (hsort : sortFrom le fuel xs = some sorted) : sorted.Perm xs := by
  induction fuel generalizing xs sorted with
  | zero =>
      cases hsort
      exact List.Perm.refl _
  | succ fuel ih =>
      rw [sortFrom] at hsort
      split at hsort
      · cases hsort
        exact List.Perm.refl _
      · obtain ⟨left, hleft, hsort⟩ := Option.bind_eq_some_iff.mp hsort
        obtain ⟨right, hright, hsort⟩ := Option.bind_eq_some_iff.mp hsort
        have hparts := (merge_perm hsort).trans ((ih hleft).append (ih hright))
        rwa [List.take_append_drop] at hparts

/-- A sort rearranges its list. -/
theorem sort_perm {le : α → α → Option Bool} {xs sorted : List α}
    (hsort : sort le xs = some sorted) : sorted.Perm xs :=
  sortFrom_perm hsort

/-! ## Orders -/

/-- Every two of these can be compared, and the comparison is total and transitive on them. -/
structure Orders (le : α → α → Option Bool) (S : List α) : Prop where
  defined : ∀ x ∈ S, ∀ y ∈ S, ∃ first, le x y = some first
  total : ∀ x ∈ S, ∀ y ∈ S, le x y = some false → le y x = some true
  trans : ∀ x ∈ S, ∀ y ∈ S, ∀ z ∈ S, le x y = some true → le y z = some true → le x z = some true

abbrev Sorted (le : α → α → Option Bool) (xs : List α) : Prop :=
  xs.Pairwise fun x y => le x y = some true

theorem merge_sorted {le : α → α → Option Bool} {S xs ys : List α} (hle : Orders le S)
    (hxs : xs ⊆ S) (hys : ys ⊆ S) (hsx : Sorted le xs) (hsy : Sorted le ys) :
    ∃ merged, merge le xs ys = some merged ∧ Sorted le merged := by
  induction xs, ys using merge.induct with
  | case1 ys =>
      rw [merge]
      exact ⟨ys, rfl, hsy⟩
  | case2 x xs =>
      rw [merge]
      exact ⟨x :: xs, rfl, hsx⟩
  | case3 x xs y ys ihl ihr =>
      rw [merge]
      have hx := hxs List.mem_cons_self
      have hy := hys List.mem_cons_self
      obtain ⟨hxall, hsxs⟩ := List.pairwise_cons.mp hsx
      obtain ⟨hyall, hsys⟩ := List.pairwise_cons.mp hsy
      have hxs' : xs ⊆ S := fun z hz => hxs (List.mem_cons_of_mem _ hz)
      have hys' : ys ⊆ S := fun z hz => hys (List.mem_cons_of_mem _ hz)
      obtain ⟨first, hfirst⟩ := hle.defined x hx y hy
      cases first with
      | true =>
          obtain ⟨rest, hrest, hsorted⟩ := ihl hxs' hys hsxs hsy
          refine ⟨x :: rest, by rw [hfirst, Option.bind_some, if_pos rfl, hrest]; rfl, ?_⟩
          refine List.pairwise_cons.mpr ⟨fun z hz => ?_, hsorted⟩
          rcases List.mem_append.mp ((merge_perm hrest).subset hz) with hz | hz
          · exact hxall z hz
          · rcases List.mem_cons.mp hz with rfl | hz
            · exact hfirst
            · exact hle.trans x hx y hy z (hys' hz) hfirst (hyall z hz)
      | false =>
          obtain ⟨rest, hrest, hsorted⟩ := ihr hxs hys' hsx hsys
          have hback := hle.total x hx y hy hfirst
          refine ⟨y :: rest, by rw [hfirst, Option.bind_some, if_neg (by decide), hrest]; rfl, ?_⟩
          refine List.pairwise_cons.mpr ⟨fun z hz => ?_, hsorted⟩
          rcases List.mem_append.mp ((merge_perm hrest).subset hz) with hz | hz
          · rcases List.mem_cons.mp hz with rfl | hz
            · exact hback
            · exact hle.trans y hy x hx z (hxs' hz) hback (hxall z hz)
          · exact hyall z hz

theorem sortFrom_sorted {le : α → α → Option Bool} {S xs : List α} (hle : Orders le S)
    {fuel : Nat} (hxs : xs ⊆ S) (hfuel : xs.length ≤ fuel) :
    ∃ sorted, sortFrom le fuel xs = some sorted ∧ Sorted le sorted := by
  induction fuel generalizing xs with
  | zero =>
      rw [List.length_eq_zero_iff.mp (Nat.le_zero.mp hfuel)]
      exact ⟨[], rfl, .nil⟩
  | succ fuel ih =>
      rw [sortFrom]
      split
      next hshort =>
          refine ⟨xs, rfl, ?_⟩
          cases xs with
          | nil => exact .nil
          | cons x xs =>
              cases xs with
              | nil => exact List.pairwise_singleton _ x
              | cons y xs =>
                  simp only [List.length_cons] at hshort
                  omega
      next hlong =>
          obtain ⟨left, hleft, hsleft⟩ := @ih (xs.take (xs.length / 2))
            (fun _ h => hxs (List.take_subset _ _ h)) (by rw [List.length_take]; omega)
          obtain ⟨right, hright, hsright⟩ := @ih (xs.drop (xs.length / 2))
            (fun _ h => hxs (List.drop_subset _ _ h)) (by rw [List.length_drop]; omega)
          have hmerge := merge_sorted hle
            (fun _ h => hxs (List.take_subset _ _ ((sortFrom_perm hleft).subset h)))
            (fun _ h => hxs (List.drop_subset _ _ ((sortFrom_perm hright).subset h)))
            hsleft hsright
          rw [hleft, hright]
          exact hmerge

/-- A sort by an order has a result, which is sorted. -/
theorem sort_sorted {le : α → α → Option Bool} {xs : List α} (hle : Orders le xs) :
    ∃ sorted, sort le xs = some sorted ∧ Sorted le sorted :=
  sortFrom_sorted hle (List.Subset.refl xs) (Nat.le_refl _)

end PartialSort

end Lib
end InventixDB
