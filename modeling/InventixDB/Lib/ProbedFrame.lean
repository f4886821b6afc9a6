import InventixDB.Lib.ProbedRun

/-!
# ProbedFrame — tables that agree off a set of keys

`AgreeOff F` relates tables that hold the same keys in the same slots, and the same values under
every key outside `F`.  Probes see keys only, so any run of operations keeps the relation; no
invariant of the tables is needed.
-/

namespace InventixDB
namespace Lib
namespace OpenAddressing

variable {κ α : Type*} {n : Nat}

/-- The same keys everywhere, and the same entries off `F`. -/
structure AgreeOff (F : κ → Bool) (t t' : Table κ α n) : Prop where
  keys : SameKeys t t'
  entries : ∀ i e, t' i = some e → F e.1 = false → t i = some e

variable {F : κ → Bool} {t t' t'' : Table κ α n}

theorem AgreeOff.refl (F : κ → Bool) (t : Table κ α n) : AgreeOff F t t where
  keys := fun _ => rfl
  entries := fun _ _ he _ => he

theorem AgreeOff.trans (h₁ : AgreeOff F t t') (h₂ : AgreeOff F t' t'') : AgreeOff F t t'' where
  keys := fun i => (h₁.keys i).trans (h₂.keys i)
  entries := fun i e he hF => h₁.entries i e (h₂.entries i e he hF) hF

/-- Writing the same slot on both sides keeps the agreement. -/
theorem AgreeOff.update (ha : AgreeOff F t t') (j : Fin n) (o : Option (κ × α)) :
    AgreeOff F (Function.update t j o) (Function.update t' j o) where
  keys := by
    intro i
    by_cases hij : i = j
    · subst hij
      rw [Function.update_self, Function.update_self]
    · rw [Function.update_of_ne hij, Function.update_of_ne hij, ha.keys i]
  entries := by
    intro i e he hF
    by_cases hij : i = j
    · subst hij
      rw [Function.update_self] at he ⊢
      exact he
    · rw [Function.update_of_ne hij] at he ⊢
      exact ha.entries i e he hF

variable [DecidableEq κ] [NeZero n] {h : κ → Fin n}

/-- The same operation on both sides keeps the agreement. -/
theorem AgreeOff.apply (ha : AgreeOff F t t') (op : Op κ α) :
    AgreeOff F (op.apply h t) (op.apply h t') := by
  cases op with
  | put k v =>
      have hprobe := ha.keys.probe_eq (h := h) k
      change AgreeOff F (insert h t k v) (insert h t' k v)
      unfold insert
      rw [hprobe]
      cases probe h t' k with
      | hit j => exact ha.update j _
      | free j => exact ha.update j _
      | full => exact ha
  | del k =>
      have hprobe := ha.keys.probe_eq (h := h) k
      change AgreeOff F (erase h t k) (erase h t' k)
      unfold erase
      rw [hprobe]
      cases probe h t' k with
      | hit j => exact ha.update j _
      | free j => exact ha
      | full => exact ha

theorem AgreeOff.applyOps (ha : AgreeOff F t t') (ops : List (Op κ α)) :
    AgreeOff F (applyOps h t ops) (applyOps h t' ops) := by
  induction ops generalizing t t' with
  | nil => exact ha
  | cons op ops ih => exact ih (ha.apply op)

/-- Tables that agree off `F` answer alike outside `F`. -/
theorem AgreeOff.lookup_eq (ha : AgreeOff F t t') {k : κ} (hk : F k = false) :
    lookup h t k = lookup h t' k := by
  cases hl : lookup h t' k with
  | none =>
      rw [lookup_eq_none_iff] at hl ⊢
      intro i hi
      exact hl i (by rw [← ha.keys.probe_eq, hi])
  | some v =>
      obtain ⟨i, hp, hi⟩ := lookup_eq_some_iff_hit.mp hl
      rw [lookup_eq_some_iff_hit]
      exact ⟨i, by rw [ha.keys.probe_eq, hp], ha.entries i (k, v) hi hk⟩

/-- Overwriting a key of `F` changes nothing off `F`. -/
theorem agreeOff_insert {k : κ} {v w : α} (hF : F k = true) (hl : lookup h t k = some w) :
    AgreeOff F (insert h t k v) t := by
  obtain ⟨j, hp, hj⟩ := lookup_eq_some_iff_hit.mp hl
  rw [insert_of_hit hp]
  refine ⟨?_, ?_⟩
  · intro i
    by_cases hij : i = j
    · subst hij
      rw [Function.update_self, hj]
      rfl
    · rw [Function.update_of_ne hij]
  · intro i e he hFe
    have hij : i ≠ j := by
      rintro rfl
      rw [hj] at he
      cases he
      rw [hF] at hFe
      cases hFe
    rw [Function.update_of_ne hij, he]

/-! ## What other keys see of one operation -/

/-- An insert hides no key that could be found. -/
theorem lookup_insert_of_some {k k' : κ} {v w : α} (hk : k' ≠ k)
    (hl : lookup h t k' = some w) : lookup h (insert h t k v) k' = some w := by
  by_cases hfull : probe h t k = .full
  · rwa [insert_of_full hfull]
  · obtain ⟨j, _, hj, hins⟩ := insert_eq_update hfull
    obtain ⟨i, hp, hi⟩ := lookup_eq_some_iff_hit.mp hl
    have hij : i ≠ j := by
      rintro rfl
      rcases hj with hnone | ⟨w', hw'⟩
      · rw [hi] at hnone
        cases hnone
      · rw [hi] at hw'
        cases hw'
        exact hk rfl
    have hreach : Reached h (Function.update t j (some (k, v))) k' i := by
      intro i' hi'
      exact ((probe_eq_hit_iff.mp hp).2 i' hi').update_some hj
    have hslot : Function.update t j (some (k, v)) i = some (k', w) := by
      rw [Function.update_of_ne hij, hi]
    rw [hins, lookup_eq_some_iff_hit]
    exact ⟨i, probe_eq_hit_iff.mpr ⟨⟨w, hslot⟩, hreach⟩, hslot⟩

/-- An erase brings no key back that could not be found. -/
theorem lookup_erase_of_none {k k' : κ} (hl : lookup h t k' = none) :
    lookup h (erase h t k) k' = none := by
  cases hk : lookup h t k with
  | none => rwa [erase_of_lookup_none hk]
  | some v =>
      obtain ⟨j, hp, hj⟩ := lookup_eq_some_iff_hit.mp hk
      rw [erase_of_hit hp, lookup_eq_none_iff]
      intro i hi
      obtain ⟨⟨w, hw⟩, hreach⟩ := probe_eq_hit_iff.mp hi
      have hij : i ≠ j := by
        rintro rfl
        rw [Function.update_self] at hw
        cases hw
      rw [Function.update_of_ne hij] at hw
      have hreach' : Reached h t k' i := by
        intro i' hi'
        obtain ⟨e, he, hne⟩ := hreach i' hi'
        by_cases hij' : i' = j
        · subst hij'
          rw [Function.update_self] at he
          cases he
        · rw [Function.update_of_ne hij'] at he
          exact ⟨e, he, hne⟩
      exact lookup_eq_none_iff.mp hl i (probe_eq_hit_iff.mpr ⟨⟨w, hw⟩, hreach'⟩)

end OpenAddressing
end Lib
end InventixDB
