import Mathlib.Data.List.Basic
import Mathlib.Data.List.Nodup

/-!
# LinkedChain — following the pointers of a list

`next` gives the pointer stored in a cell: `none` is not a cell, `some none` a null pointer.  A
chain from a cell is the list of the cells its pointers reach.  Walking on while a test holds ends
at the last cell before the first one that fails it, from the start or from any cell on the way.
-/

namespace InventixDB
namespace Lib
namespace LinkedChain

variable {α : Type*}

/-- The cells behind `x`, up to a null pointer. -/
def Chain (next : α → Option (Option α)) : α → List α → Prop
  | x, [] => next x = some none
  | x, y :: ys => next x = some (some y) ∧ Chain next y ys

/-- Go to the next cell while it passes the test; `none` is a bad pointer or no fuel left. -/
def walk (next : α → Option (Option α)) (test : α → Option Bool) : Nat → α → Option α
  | 0, _ => none
  | fuel + 1, x =>
      match next x with
      | none => none
      | some none => some x
      | some (some y) =>
          match test y with
          | none => none
          | some true => walk next test fuel y
          | some false => some x

/-- The last cell, with `x` in front, before the first of `ys` that fails the test. -/
def lastPassing (p : α → Bool) (x : α) (ys : List α) : α :=
  (ys.takeWhile p).getLastD x

variable {next next' : α → Option (Option α)} {test : α → Option Bool} {p : α → Bool}
  {x y : α} {xs ys : List α}

/-! ## Chains -/

theorem Chain.congr (hc : Chain next x ys) (h : ∀ y ∈ x :: ys, next' y = next y) :
    Chain next' x ys := by
  induction ys generalizing x with
  | nil =>
      have hx := h x List.mem_cons_self
      rw [Chain, hx]
      exact hc
  | cons y ys ih =>
      have hx := h x List.mem_cons_self
      refine ⟨?_, ih hc.2 fun z hz => h z (List.mem_cons_of_mem _ hz)⟩
      rw [hx]
      exact hc.1

/-- A cell on the way starts the rest of the chain. -/
theorem Chain.suffix (hc : Chain next x (xs ++ y :: ys)) : Chain next y ys := by
  induction xs generalizing x with
  | nil => exact hc.2
  | cons z zs ih => exact ih hc.2

theorem Chain.next_isSome (hc : Chain next x ys) : ∀ y ∈ x :: ys, (next y).isSome := by
  induction ys generalizing x with
  | nil =>
      intro y hy
      rw [List.mem_singleton.mp hy, show next x = some none from hc]
      rfl
  | cons z zs ih =>
      intro y hy
      rcases List.mem_cons.mp hy with rfl | hy
      · rw [hc.1]
        rfl
      · exact ih hc.2 y hy

/-! ## Walking -/

theorem walk_chain (hc : Chain next x ys) (htest : ∀ y ∈ ys, test y = some (p y)) {fuel : Nat}
    (hfuel : ys.length < fuel) : walk next test fuel x = some (lastPassing p x ys) := by
  induction ys generalizing x fuel with
  | nil =>
      obtain ⟨fuel, rfl⟩ : ∃ m, fuel = m + 1 := ⟨fuel - 1, by omega⟩
      rw [walk, show next x = some none from hc]
      rfl
  | cons y ys ih =>
      obtain ⟨fuel, rfl⟩ : ∃ m, fuel = m + 1 := ⟨fuel - 1, by omega⟩
      rw [walk, hc.1]
      dsimp only
      rw [htest y List.mem_cons_self]
      cases hy : p y with
      | true =>
          have hrest := ih hc.2 (fun z hz => htest z (List.mem_cons_of_mem _ hz))
            (Nat.lt_of_succ_lt_succ hfuel)
          dsimp only
          rw [hrest, lastPassing, lastPassing, List.takeWhile_cons_of_pos hy, List.getLastD_cons]
      | false =>
          dsimp only
          rw [lastPassing, List.takeWhile_cons_of_neg (by rw [hy]; exact Bool.false_ne_true)]
          rfl

/-- Walking from a cell on the way, with passing cells before it, ends at the same cell. -/
theorem lastPassing_append (hx : ∀ z ∈ xs, p z = true) (hy : p y = true) :
    lastPassing p x (xs ++ y :: ys) = lastPassing p y ys := by
  rw [lastPassing, lastPassing, List.takeWhile_append_of_pos hx, List.takeWhile_cons_of_pos hy]
  induction xs generalizing x with
  | nil => rw [List.nil_append, List.getLastD_cons]
  | cons z zs ih =>
      rw [List.cons_append, List.getLastD_cons]
      exact ih fun w hw => hx w (List.mem_cons_of_mem _ hw)

/-- It is the start, or a cell that passes with only passing cells before it. -/
theorem lastPassing_cases (p : α → Bool) (x : α) (ys : List α) :
    (lastPassing p x ys = x ∧ ys.takeWhile p = []) ∨
      ∃ zs, ys.takeWhile p = zs ++ [lastPassing p x ys] := by
  rw [lastPassing]
  rcases List.eq_nil_or_concat (ys.takeWhile p) with hnil | ⟨zs, z, hz⟩
  · rw [hnil]
    exact Or.inl ⟨rfl, rfl⟩
  · rw [hz, List.concat_eq_append]
    exact Or.inr ⟨zs, by rw [List.getLastD_eq_getLast?, List.getLast?_concat, Option.getD_some]⟩

/-- The rest of the chain starts behind the last passing cell. -/
theorem Chain.dropWhile (hc : Chain next x ys) :
    Chain next (lastPassing p x ys) (ys.dropWhile p) := by
  induction ys generalizing x with
  | nil => exact hc
  | cons y ys ih =>
      cases hy : p y with
      | true =>
          rw [lastPassing, List.takeWhile_cons_of_pos hy, List.getLastD_cons,
            List.dropWhile_cons_of_pos hy]
          exact ih hc.2
      | false =>
          have hneg : ¬ p y = true := by rw [hy]; exact Bool.false_ne_true
          rw [lastPassing, List.takeWhile_cons_of_neg hneg, List.dropWhile_cons_of_neg hneg]
          exact hc

theorem Chain.next_eq_head? (hc : Chain next x ys) : next x = some ys.head? := by
  cases ys with
  | nil => exact hc
  | cons y ys => exact hc.1

/-! ## A new cell -/

/-- A cell linked in behind the last passing one stands between those that pass and the rest. -/
theorem Chain.splice (hc : Chain next x ys) {new : α} (hnd : (x :: ys).Nodup)
    (hpred : next' (lastPassing p x ys) = some (some new))
    (hnew : next' new = next (lastPassing p x ys))
    (hother : ∀ y ∈ x :: ys, y ≠ lastPassing p x ys → next' y = next y) :
    Chain next' x (ys.takeWhile p ++ new :: ys.dropWhile p) := by
  induction ys generalizing x with
  | nil =>
      exact ⟨hpred, hnew.trans hc⟩
  | cons y ys ih =>
      obtain ⟨hxys, hnd'⟩ := List.nodup_cons.mp hnd
      cases hy : p y with
      | true =>
          have hlast : lastPassing p x (y :: ys) = lastPassing p y ys := by
            rw [lastPassing, lastPassing, List.takeWhile_cons_of_pos hy, List.getLastD_cons]
          rw [hlast] at hpred hnew hother
          have hx : x ≠ lastPassing p y ys := by
            rintro rfl
            refine hxys ?_
            rcases lastPassing_cases p y ys with ⟨hstart, -⟩ | ⟨zs, hzs⟩
            · rw [hstart]
              exact List.mem_cons_self
            · refine List.mem_cons_of_mem _ (List.takeWhile_subset p ?_)
              rw [hzs]
              exact List.mem_append_right _ List.mem_cons_self
          rw [List.takeWhile_cons_of_pos hy, List.dropWhile_cons_of_pos hy]
          refine ⟨?_, ih hc.2 hnd' hpred hnew fun z hz => hother z (List.mem_cons_of_mem _ hz)⟩
          rw [hother x List.mem_cons_self hx]
          exact hc.1
      | false =>
          have hneg : ¬ p y = true := by rw [hy]; exact Bool.false_ne_true
          have hlast : lastPassing p x (y :: ys) = x := by
            rw [lastPassing, List.takeWhile_cons_of_neg hneg]
            rfl
          rw [hlast] at hpred hnew hother
          rw [List.takeWhile_cons_of_neg hneg, List.dropWhile_cons_of_neg hneg, List.nil_append]
          refine ⟨hpred, by rw [hnew]; exact hc.1, hc.2.congr fun z hz => ?_⟩
          refine hother z (List.mem_cons_of_mem _ hz) ?_
          rintro rfl
          exact hxys hz

end LinkedChain
end Lib
end InventixDB
