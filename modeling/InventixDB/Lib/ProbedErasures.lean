import InventixDB.Lib.ProbedFrame

/-!
# ProbedErasures — erasing many keys one after another

An erase can hide a later key from its own erase.  `cleared` says from the table alone which slots
a list of erases empties, and with it what the probes find afterwards.
-/

namespace InventixDB
namespace Lib
namespace OpenAddressing

variable {κ α : Type*} {n : Nat} {h : κ → Fin n} {t : Table κ α n} {k : κ} {slots : List (Fin n)}

/-- The table with some slots emptied. -/
def hide (slots : List (Fin n)) (t : Table κ α n) : Table κ α n :=
  fun i => if i ∈ slots then none else t i

theorem hide_nil : hide [] t = t := by
  funext i
  exact if_neg List.not_mem_nil

theorem hide_cons (i : Fin n) : hide (i :: slots) t = Function.update (hide slots t) i none := by
  funext j
  by_cases hij : j = i
  · subst hij
    rw [Function.update_self]
    exact if_pos List.mem_cons_self
  · rw [Function.update_of_ne hij]
    simp [hide, hij]

/-- No emptied slot stands on the way of `k` to slot `i`, or is that slot. -/
def Clear (h : κ → Fin n) (slots : List (Fin n)) (k : κ) (i : Fin n) : Prop :=
  ∀ j ∈ slots, j ≠ i ∧ ¬ Before h k j i

instance decidableClear (h : κ → Fin n) (slots : List (Fin n)) (k : κ) (i : Fin n) :
    Decidable (Clear h slots k i) := by
  unfold Clear
  infer_instance

variable [DecidableEq κ] [NeZero n]

/-- A probe ends where it did exactly when its way is clear. -/
theorem probe_hide_iff {i : Fin n} :
    probe h (hide slots t) k = .hit i ↔ probe h t k = .hit i ∧ Clear h slots k i := by
  rw [probe_eq_hit_iff, probe_eq_hit_iff]
  constructor
  · rintro ⟨⟨v, hv⟩, hreach⟩
    have hkept : ∀ {j e}, hide slots t j = some e → j ∉ slots ∧ t j = some e := by
      intro j e he
      unfold hide at he
      split at he
      · cases he
      · next hj => exact ⟨hj, he⟩
    refine ⟨⟨⟨v, (hkept hv).2⟩, fun j hj => ?_⟩, fun j hj => ⟨?_, fun hbefore => ?_⟩⟩
    · obtain ⟨e, he, hne⟩ := hreach j hj
      exact ⟨e, (hkept he).2, hne⟩
    · rintro rfl
      exact (hkept hv).1 hj
    · obtain ⟨e, he, _⟩ := hreach j hbefore
      exact (hkept he).1 hj
  · rintro ⟨⟨⟨v, hv⟩, hreach⟩, hclear⟩
    have hkept : ∀ {j e}, j ∉ slots → t j = some e → hide slots t j = some e := by
      intro j e hj he
      exact (if_neg hj).trans he
    refine ⟨⟨v, hkept (fun hi => (hclear i hi).1 rfl) hv⟩, fun j hj => ?_⟩
    obtain ⟨e, he, hne⟩ := hreach j hj
    exact ⟨e, hkept (fun hmem => (hclear j hmem).2 hj) he, hne⟩

/-- The slots that erasing the keys empties, the last one first, when `slots` are empty already. -/
def clearedFrom (h : κ → Fin n) (t : Table κ α n) : List (Fin n) → List κ → List (Fin n)
  | slots, [] => slots
  | slots, k :: keys =>
      match probe h t k with
      | .hit i => clearedFrom h t (if Clear h slots k i then i :: slots else slots) keys
      | _ => clearedFrom h t slots keys

/-- The slots that erasing the keys one after another empties. -/
def cleared (h : κ → Fin n) (t : Table κ α n) (keys : List κ) : List (Fin n) :=
  clearedFrom h t [] keys

theorem foldl_erase_hide (keys : List κ) :
    keys.foldl (erase h) (hide slots t) = hide (clearedFrom h t slots keys) t := by
  induction keys generalizing slots with
  | nil => rfl
  | cons k keys ih =>
      have hmiss : (∀ i, probe h (hide slots t) k ≠ .hit i) →
          erase h (hide slots t) k = hide slots t := by
        intro hno
        refine erase_of_lookup_none (lookup_eq_none_iff.mpr hno)
      rw [List.foldl_cons, clearedFrom]
      split
      · next i hi =>
          by_cases hclear : Clear h slots k i
          · rw [if_pos hclear, erase_of_hit (probe_hide_iff.mpr ⟨hi, hclear⟩), ← hide_cons, ih]
          · rw [if_neg hclear, hmiss, ih]
            intro j hj
            obtain ⟨hhit, hjclear⟩ := probe_hide_iff.mp hj
            cases hi.symm.trans hhit
            exact hclear hjclear
      · next hno =>
          rw [hmiss, ih]
          intro j hj
          exact hno j (probe_hide_iff.mp hj).1

/-- Erasing keys leaves the table with the cleared slots emptied. -/
theorem foldl_erase (keys : List κ) : keys.foldl (erase h) t = hide (cleared h t keys) t := by
  have herase := @foldl_erase_hide _ _ _ h t [] _ _ keys
  rwa [hide_nil] at herase

theorem lookup_hide_of_none (hl : lookup h t k = none) : lookup h (hide slots t) k = none :=
  lookup_eq_none_iff.mpr fun i hi => lookup_eq_none_iff.mp hl i (probe_hide_iff.mp hi).1

/-- A key is found as before exactly when no cleared slot stands on its way. -/
theorem lookup_hide_eq_iff :
    lookup h (hide slots t) k = lookup h t k ↔ ∀ i, probe h t k = .hit i → Clear h slots k i := by
  cases hl : lookup h t k with
  | none =>
      have hmiss := lookup_eq_none_iff.mp hl
      exact iff_of_true (lookup_hide_of_none hl) fun i hi => absurd hi (hmiss i)
  | some v =>
      obtain ⟨i, hi, hslot⟩ := lookup_eq_some_iff_hit.mp hl
      constructor
      · intro hfound j hj
        obtain ⟨i', hi', _⟩ := lookup_eq_some_iff_hit.mp hfound
        obtain ⟨hhit, hclear⟩ := probe_hide_iff.mp hi'
        cases hhit.symm.trans hj
        exact hclear
      · intro hclear
        refine lookup_eq_some_iff_hit.mpr ⟨i, probe_hide_iff.mpr ⟨hi, hclear i hi⟩, ?_⟩
        exact (if_neg fun hmem => (hclear i hi i hmem).1 rfl).trans hslot

/-- An erased key is not found. -/
theorem lookup_foldl_erase_of_mem {keys : List κ} (hk : k ∈ keys) :
    lookup h (keys.foldl (erase h) t) k = none := by
  induction keys generalizing t with
  | nil => cases hk
  | cons key keys ih =>
      rw [List.foldl_cons]
      rcases List.mem_cons.mp hk with rfl | hmem
      · rw [foldl_erase]
        exact lookup_hide_of_none lookup_erase_self
      · exact ih hmem

end OpenAddressing
end Lib
end InventixDB
