import Mathlib.Data.List.Basic

/-!
# FirstMatch — searching a list whose first matching element is changed or taken out

A record is changed through the pointer a search returned: the first element that passes one
test is changed, and a search with another test follows.
-/

namespace InventixDB
namespace Lib

variable {α : Type*} {p q : α → Bool} {f : α → α}

/-- The search that led to the changed element still does. -/
theorem find?_modify_findIdx (hf : ∀ a, p (f a) = p a) (l : List α) :
    (l.modify (l.findIdx p) f).find? p = (l.find? p).map f := by
  induction l with
  | nil => rfl
  | cons a l ih =>
      rw [List.findIdx_cons]
      cases ha : p a with
      | true => simp [ha, hf]
      | false => simp [ha, ih]

/-- Two changes of the first match are one. -/
theorem modify_findIdx_modify_findIdx {g : α → α} (hf : ∀ a, p (f a) = p a) (l : List α) :
    (l.modify (l.findIdx p) f).modify ((l.modify (l.findIdx p) f).findIdx p) g =
      l.modify (l.findIdx p) (g ∘ f) := by
  induction l with
  | nil => rfl
  | cons a l ih =>
      rw [List.findIdx_cons]
      cases ha : p a with
      | true => simp [List.findIdx_cons, ha, hf]
      | false => simp [List.findIdx_cons, ha, ih]

/-- A search the changed element does not pass, before or after, is as it was. -/
theorem find?_modify_findIdx_of_disjoint (hpq : ∀ a, p a = true → q a = false ∧ q (f a) = false)
    (l : List α) : (l.modify (l.findIdx p) f).find? q = l.find? q := by
  induction l with
  | nil => rfl
  | cons a l ih =>
      rw [List.findIdx_cons]
      cases ha : p a with
      | true => simp [hpq a ha]
      | false =>
          cases hq : q a with
          | true => simp [hq]
          | false => simp [hq, ih]

/-- A search the removed element does not pass is as it was. -/
theorem find?_eraseIdx_findIdx_of_disjoint (hpq : ∀ a, p a = true → q a = false) (l : List α) :
    (l.eraseIdx (l.findIdx p)).find? q = l.find? q := by
  induction l with
  | nil => rfl
  | cons a l ih =>
      rw [List.findIdx_cons]
      cases ha : p a with
      | true => simp [hpq a ha]
      | false =>
          cases hq : q a with
          | true => simp [hq]
          | false => simp [hq, ih]

/-- Changing the found element changes nothing exactly if it leaves that element. -/
theorem modify_findIdx_eq_self_iff {l : List α} {a : α} (hfind : l.find? p = some a) (f : α → α) :
    l.modify (l.findIdx p) f = l ↔ f a = a := by
  induction l with
  | nil => cases hfind
  | cons b l ih =>
      rw [List.findIdx_cons]
      cases hb : p b with
      | true =>
          rw [List.find?_cons_of_pos hb] at hfind
          cases hfind
          simp
      | false =>
          rw [List.find?_cons_of_neg (by simp [hb])] at hfind
          simp [ih hfind]

/-! ## Distinct keys -/

variable {κ : Type*} [DecidableEq κ] {key : α → κ} {l : List α}

/-- Under distinct keys an element is every element with its key. -/
theorem modify_eq_map (hkeys : (l.map key).Nodup) {i : Nat} {a : α} (hget : l[i]? = some a)
    (f : α → α) : l.modify i f = l.map fun b => if key b = key a then f b else b := by
  induction l generalizing i with
  | nil => cases hget
  | cons b l ih =>
      rw [List.map_cons, List.nodup_cons] at hkeys
      cases i with
      | zero =>
          obtain rfl : b = a := by simpa using hget
          have hrest : ∀ c ∈ l, (if key c = key b then f c else c) = c := by
            intro c hc
            rw [if_neg]
            intro heq
            exact hkeys.1 (heq ▸ List.mem_map_of_mem hc)
          simp [List.map_congr_left hrest]
      | succ i =>
          rw [List.getElem?_cons_succ] at hget
          have hb : key b ≠ key a := by
            intro heq
            exact hkeys.1 (heq ▸ List.mem_map_of_mem (List.mem_of_getElem? hget))
          rw [List.modify_succ_cons, ih hkeys.2 hget, List.map_cons, if_neg hb]

theorem modify_findIdx_eq_map (hkeys : (l.map key).Nodup) (k : κ) (f : α → α) :
    l.modify (l.findIdx fun a => key a = k) f = l.map fun a => if key a = k then f a else a := by
  by_cases hfound : l.findIdx (fun a => decide (key a = k)) < l.length
  · have hkey := List.findIdx_getElem (w := hfound)
    have hget := List.getElem?_eq_getElem hfound
    rw [modify_eq_map hkeys hget f, of_decide_eq_true hkey]
  · have hall : ∀ a ∈ l, key a ≠ k := by
      intro a ha heq
      exact hfound (List.findIdx_lt_length.mpr ⟨a, ha, by simp [heq]⟩)
    rw [List.modify_eq_self (Nat.le_of_not_lt hfound)]
    symm
    calc l.map (fun a => if key a = k then f a else a) = l.map id :=
          List.map_congr_left fun a ha => by rw [if_neg (hall a ha), id]
      _ = l := List.map_id l

end Lib
end InventixDB
