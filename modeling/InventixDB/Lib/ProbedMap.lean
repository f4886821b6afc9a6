import InventixDB.Lib.OpenAddressing
import Mathlib.Data.Finset.Card
import Mathlib.Data.Fintype.EquivFin

/-!
# ProbedMap — linear-probing tables as finite maps

On an `Intact` table `lookup` is the finite map of its entries, `insert` updates that map, and
`erase` does so exactly when it cuts no chain.  The second half runs lists of operations: a run
whose operations all fit (`SafeOps`) acts on the table as it acts on the map, and running the
same operations twice changes the map no further.
-/

namespace InventixDB
namespace Lib
namespace OpenAddressing

variable {κ α : Type*} {n : Nat} [DecidableEq κ] [NeZero n]
variable {h : κ → Fin n} {t t' : Table κ α n} {k k' : κ} {v w : α}

/-! ## Lookups and probes -/

theorem lookup_eq_some_iff_hit :
    lookup h t k = some v ↔ ∃ i, probe h t k = .hit i ∧ t i = some (k, v) := by
  have hspec := probe_spec h t k
  unfold lookup
  cases hp : probe h t k with
  | hit i =>
      rw [hp] at hspec
      obtain ⟨⟨w, hw⟩, _⟩ := hspec
      simp [hw]
  | free i => simp
  | full => simp

theorem lookup_eq_none_iff :
    lookup h t k = none ↔ ∀ i, probe h t k ≠ .hit i := by
  have hspec := probe_spec h t k
  unfold lookup
  cases hp : probe h t k with
  | hit i =>
      rw [hp] at hspec
      obtain ⟨⟨w, hw⟩, _⟩ := hspec
      simp [hw]
  | free i => simp
  | full => simp

@[simp]
theorem lookup_empty : lookup h (empty : Table κ α n) k = none := by
  rw [lookup_eq_none_iff]
  intro i hp
  obtain ⟨⟨v, hv⟩, _⟩ := probe_eq_hit_iff.mp hp
  cases hv

/-- Two tables with the same key in every slot. -/
def SameKeys (t t' : Table κ α n) : Prop :=
  ∀ i, (t i).map Prod.fst = (t' i).map Prod.fst

omit [DecidableEq κ] [NeZero n] in
theorem passes_iff {i : Fin n} :
    Passes t k i ↔ ∃ k', (t i).map Prod.fst = some k' ∧ k' ≠ k := by
  simp [Passes]

omit [DecidableEq κ] [NeZero n] in
theorem SameKeys.reached_iff (hs : SameKeys t t') {j : Fin n} :
    Reached h t k j ↔ Reached h t' k j := by
  unfold Reached
  simp only [passes_iff, hs _]

/-- A probe sees only which key each slot holds. -/
theorem SameKeys.probe_eq (hs : SameKeys t t') (k : κ) : probe h t k = probe h t' k := by
  cases hp : probe h t' k with
  | hit j =>
      obtain ⟨⟨v, hv⟩, hreach⟩ := probe_eq_hit_iff.mp hp
      have hkey := hs j
      rw [hv, Option.map_some, Option.map_eq_some_iff] at hkey
      obtain ⟨e, he, hk⟩ := hkey
      obtain ⟨k₀, w⟩ := e
      subst hk
      exact probe_eq_hit_iff.mpr ⟨⟨w, he⟩, hs.reached_iff.mpr hreach⟩
  | free j =>
      obtain ⟨hnone, hreach⟩ := probe_eq_free_iff.mp hp
      have hkey := hs j
      rw [hnone, Option.map_none, Option.map_eq_none_iff] at hkey
      exact probe_eq_free_iff.mpr ⟨hkey, hs.reached_iff.mpr hreach⟩
  | full =>
      have hall := probe_eq_full_iff.mp hp
      refine probe_eq_full_iff.mpr ?_
      intro i
      simpa only [passes_iff, hs i] using hall i

/-! ## Operations that undo each other, slot for slot -/

omit [DecidableEq κ] [NeZero n] in
/-- Changing the slot a probe path ends in leaves the path to it alone. -/
theorem Reached.update {j : Fin n} (hreach : Reached h t k j) (o : Option (κ × α)) :
    Reached h (Function.update t j o) k j := by
  intro i hi
  have hne : i ≠ j := by
    rintro rfl
    exact lt_irrefl _ hi
  obtain ⟨e, he, hek⟩ := hreach i hi
  exact ⟨e, by rw [Function.update_of_ne hne, he], hek⟩

theorem probe_update_some {j : Fin n} (hreach : Reached h t k j) :
    probe h (Function.update t j (some (k, v))) k = .hit j := by
  refine probe_eq_hit_iff.mpr ⟨⟨v, ?_⟩, hreach.update _⟩
  rw [Function.update_self]

theorem probe_update_none {j : Fin n} (hreach : Reached h t k j) :
    probe h (Function.update t j none) k = .free j := by
  refine probe_eq_free_iff.mpr ⟨?_, hreach.update _⟩
  rw [Function.update_self]

theorem insert_of_full (hp : probe h t k = .full) : insert h t k v = t := by
  simp [insert, hp]

theorem insert_of_hit {j : Fin n} (hp : probe h t k = .hit j) :
    insert h t k v = Function.update t j (some (k, v)) := by
  simp [insert, hp]

theorem insert_of_free {j : Fin n} (hp : probe h t k = .free j) :
    insert h t k v = Function.update t j (some (k, v)) := by
  simp [insert, hp]

theorem erase_of_hit {j : Fin n} (hp : probe h t k = .hit j) :
    erase h t k = Function.update t j none := by
  simp [erase, hp]

theorem erase_of_lookup_none (hl : lookup h t k = none) : erase h t k = t := by
  rw [lookup_eq_none_iff] at hl
  cases hp : probe h t k with
  | hit i => exact absurd hp (hl i)
  | free i => simp [erase, hp]
  | full => simp [erase, hp]

/-- An insert that is not dropped writes the slot where the probe ends. -/
theorem insert_eq_update (hp : probe h t k ≠ .full) :
    ∃ j, Reached h t k j ∧ (t j = none ∨ ∃ w, t j = some (k, w)) ∧
      ∀ v, insert h t k v = Function.update t j (some (k, v)) := by
  cases hpr : probe h t k with
  | hit j =>
      obtain ⟨hv, hreach⟩ := probe_eq_hit_iff.mp hpr
      exact ⟨j, hreach, Or.inr hv, fun v => insert_of_hit hpr⟩
  | free j =>
      obtain ⟨hnone, hreach⟩ := probe_eq_free_iff.mp hpr
      exact ⟨j, hreach, Or.inl hnone, fun v => insert_of_free hpr⟩
  | full => exact absurd hpr hp

theorem lookup_insert_self (hp : probe h t k ≠ .full) :
    lookup h (insert h t k v) k = some v := by
  obtain ⟨j, hreach, _, hins⟩ := insert_eq_update hp
  rw [hins, lookup_eq_some_iff_hit]
  exact ⟨j, probe_update_some hreach, Function.update_self _ _ _⟩

theorem lookup_erase_self : lookup h (erase h t k) k = none := by
  cases hl : lookup h t k with
  | none => rw [erase_of_lookup_none hl, hl]
  | some v =>
      obtain ⟨j, hp, _⟩ := lookup_eq_some_iff_hit.mp hl
      rw [erase_of_hit hp, lookup_eq_none_iff, probe_update_none (probe_eq_hit_iff.mp hp).2]
      intro i hi
      cases hi

theorem insert_insert : insert h (insert h t k v) k w = insert h t k w := by
  by_cases hp : probe h t k = .full
  · rw [insert_of_full hp, insert_of_full hp]
  · obtain ⟨j, hreach, _, hins⟩ := insert_eq_update hp
    rw [hins, hins, insert_of_hit (probe_update_some hreach), Function.update_idem]

theorem insert_lookup_self (hl : lookup h t k = some v) : insert h t k v = t := by
  obtain ⟨j, hp, hj⟩ := lookup_eq_some_iff_hit.mp hl
  rw [insert_of_hit hp, ← hj, Function.update_eq_self]

/-- Erasing a key right after its first insert restores the slots, dropped insert included. -/
theorem erase_insert (hl : lookup h t k = none) : erase h (insert h t k v) k = t := by
  cases hp : probe h t k with
  | hit i => exact absurd hp (lookup_eq_none_iff.mp hl i)
  | free j =>
      obtain ⟨hnone, hreach⟩ := probe_eq_free_iff.mp hp
      rw [insert_of_free hp, erase_of_hit (probe_update_some hreach), Function.update_idem,
        ← hnone, Function.update_eq_self]
  | full => rw [insert_of_full hp, erase_of_lookup_none hl]

/-- Putting the value back right after an erase restores the slots. -/
theorem insert_erase (hl : lookup h t k = some v) : insert h (erase h t k) k v = t := by
  obtain ⟨j, hp, hj⟩ := lookup_eq_some_iff_hit.mp hl
  have hreach := (probe_eq_hit_iff.mp hp).2
  rw [erase_of_hit hp, insert_of_free (probe_update_none hreach), Function.update_idem,
    ← hj, Function.update_eq_self]

/-! ## Intact tables -/

/-- Every entry sits where the probe for its own key ends. -/
def Intact (h : κ → Fin n) (t : Table κ α n) : Prop :=
  ∀ i k v, t i = some (k, v) → Reached h t k i

omit [DecidableEq κ] [NeZero n] in
theorem intact_empty : Intact h (empty : Table κ α n) := by
  intro i k v hi
  cases hi

theorem Intact.probe_eq_hit (hI : Intact h t) {i : Fin n} (hi : t i = some (k, v)) :
    probe h t k = .hit i := by
  exact probe_eq_hit_iff.mpr ⟨⟨v, hi⟩, hI i k v hi⟩

omit [DecidableEq κ] in
theorem Intact.slot_unique (hI : Intact h t) {i j : Fin n}
    (hi : t i = some (k, v)) (hj : t j = some (k, w)) : i = j := by
  exact reached_unique (hI i k v hi) (hI j k w hj) (not_passes_of_hit hi) (not_passes_of_hit hj)

theorem Intact.lookup_eq_some (hI : Intact h t) :
    lookup h t k = some v ↔ ∃ i, t i = some (k, v) := by
  rw [lookup_eq_some_iff_hit]
  constructor
  · rintro ⟨i, _, hi⟩
    exact ⟨i, hi⟩
  · rintro ⟨i, hi⟩
    exact ⟨i, hI.probe_eq_hit hi, hi⟩

theorem Intact.mem_toList_iff (hI : Intact h t) :
    (k, v) ∈ toList t ↔ lookup h t k = some v := by
  rw [mem_toList, hI.lookup_eq_some]

omit [DecidableEq κ] in
theorem Intact.nodup_keys (hI : Intact h t) : ((toList t).map Prod.fst).Nodup := by
  unfold toList
  rw [List.map_filterMap]
  refine (List.nodup_finRange n).filterMap ?_
  intro i j k hi hj
  simp only [Option.mem_def, Option.map_eq_some_iff, Prod.exists, exists_and_right,
    exists_eq_right] at hi hj
  obtain ⟨v, hv⟩ := hi
  obtain ⟨w, hw⟩ := hj
  exact hI.slot_unique hv hw

omit [DecidableEq κ] [NeZero n] in
/-- Occupying a free slot, or rewriting one with the same key, keeps every walk passing. -/
theorem Passes.update_some {i j : Fin n} (hj : t j = none ∨ ∃ w, t j = some (k, w))
    (hp : Passes t k' i) : Passes (Function.update t j (some (k, v))) k' i := by
  obtain ⟨e, he, hne⟩ := hp
  by_cases hij : i = j
  · subst hij
    rcases hj with hnone | ⟨w, hw⟩
    · rw [hnone] at he
      cases he
    · rw [hw] at he
      cases he
      exact ⟨(k, v), Function.update_self _ _ _, hne⟩
  · exact ⟨e, by rw [Function.update_of_ne hij, he], hne⟩

theorem Intact.insert (hI : Intact h t) (k : κ) (v : α) : Intact h (insert h t k v) := by
  by_cases hp : probe h t k = .full
  · rwa [insert_of_full hp]
  · obtain ⟨j, hreach, hj, hins⟩ := insert_eq_update hp
    rw [hins]
    intro i k' w hi
    by_cases hij : i = j
    · subst hij
      rw [Function.update_self] at hi
      cases hi
      exact hreach.update _
    · rw [Function.update_of_ne hij] at hi
      intro i' hi'
      exact (hI i k' w hi i' hi').update_some hj

/-- An insert that is not dropped is a map update. -/
theorem Intact.lookup_insert (hI : Intact h t) (hp : probe h t k ≠ .full) :
    lookup h (OpenAddressing.insert h t k v) = Function.update (lookup h t) k (some v) := by
  funext k'
  by_cases hk : k' = k
  · subst hk
    rw [lookup_insert_self hp, Function.update_self]
  · rw [Function.update_of_ne hk]
    obtain ⟨j, _, hj, hins⟩ := insert_eq_update hp
    refine Option.ext ?_
    intro w
    rw [(hI.insert k v).lookup_eq_some, hI.lookup_eq_some, hins]
    constructor
    · rintro ⟨i, hi⟩
      by_cases hij : i = j
      · subst hij
        rw [Function.update_self] at hi
        cases hi
        exact absurd rfl hk
      · exact ⟨i, by rwa [Function.update_of_ne hij] at hi⟩
    · rintro ⟨i, hi⟩
      have hij : i ≠ j := by
        rintro rfl
        rcases hj with hnone | ⟨w', hw'⟩
        · rw [hi] at hnone
          cases hnone
        · rw [hi] at hw'
          cases hw'
          exact hk rfl
      exact ⟨i, by rw [Function.update_of_ne hij, hi]⟩

/-! ## Erasing and probe chains -/

/-- Erasing `k` would empty a slot on the probe path of another entry. -/
def CutsChain (h : κ → Fin n) (t : Table κ α n) (k : κ) : Prop :=
  ∃ j, probe h t k = .hit j ∧ ∃ i, i ≠ j ∧ ∃ e ∈ t i, Before h e.1 j i

instance (h : κ → Fin n) (t : Table κ α n) (k : κ) : Decidable (CutsChain h t k) := by
  have hstep : ∀ i j, Decidable (∃ e ∈ t i, Before h e.1 j i) := by
    intro i j
    exact match hi : t i with
      | none => isFalse (by simp)
      | some e =>
          if hb : Before h e.1 j i then isTrue ⟨e, rfl, hb⟩
          else isFalse (by simpa using hb)
  unfold CutsChain
  infer_instance

theorem intact_erase_iff (hI : Intact h t) :
    Intact h (erase h t k) ↔ ¬ CutsChain h t k := by
  cases hl : lookup h t k with
  | none =>
      rw [erase_of_lookup_none hl]
      refine iff_of_true hI ?_
      rintro ⟨j, hp, _⟩
      exact lookup_eq_none_iff.mp hl j hp
  | some v =>
      obtain ⟨j, hp, hj⟩ := lookup_eq_some_iff_hit.mp hl
      rw [erase_of_hit hp]
      constructor
      · rintro hI' ⟨j', hp', i, hij, e, he, hbefore⟩
        have hjj : j = j' := by
          rw [hp] at hp'
          cases hp'
          rfl
        subst hjj
        have hi : Function.update t j none i = some (e.1, e.2) := by
          rw [Function.update_of_ne hij]
          exact he
        have hpass := hI' i e.1 e.2 hi j hbefore
        exact not_passes_of_none (Function.update_self _ _ _) hpass
      · intro hcut i k' w hi i' hi'
        have hij : i ≠ j := by
          rintro rfl
          rw [Function.update_self] at hi
          cases hi
        rw [Function.update_of_ne hij] at hi
        have hne : i' ≠ j := by
          rintro rfl
          exact hcut ⟨i', hp, i, hij, (k', w), hi, hi'⟩
        obtain ⟨e, he, hek⟩ := hI i k' w hi i' hi'
        exact ⟨e, by rw [Function.update_of_ne hne, he], hek⟩

/-- An erase that cuts no chain is a map update. -/
theorem Intact.lookup_erase (hI : Intact h t) (hcut : ¬ CutsChain h t k) :
    lookup h (erase h t k) = Function.update (lookup h t) k none := by
  funext k'
  by_cases hk : k' = k
  · subst hk
    rw [lookup_erase_self, Function.update_self]
  · rw [Function.update_of_ne hk]
    cases hl : lookup h t k with
    | none => rw [erase_of_lookup_none hl]
    | some v =>
        obtain ⟨j, hp, hj⟩ := lookup_eq_some_iff_hit.mp hl
        have hI' := (intact_erase_iff hI).mpr hcut
        refine Option.ext ?_
        intro w
        rw [hI'.lookup_eq_some, hI.lookup_eq_some, erase_of_hit hp]
        constructor
        · rintro ⟨i, hi⟩
          have hij : i ≠ j := by
            rintro rfl
            rw [Function.update_self] at hi
            cases hi
          exact ⟨i, by rwa [Function.update_of_ne hij] at hi⟩
        · rintro ⟨i, hi⟩
          have hij : i ≠ j := by
            rintro rfl
            rw [hi] at hj
            cases hj
            exact hk rfl
          exact ⟨i, by rw [Function.update_of_ne hij, hi]⟩

/-- An erase that cuts a chain makes some other live key unreachable. -/
theorem Intact.lost_of_cutsChain (hI : Intact h t) (hcut : CutsChain h t k) :
    ∃ k' w, k' ≠ k ∧ lookup h t k' = some w ∧ lookup h (erase h t k) k' = none := by
  obtain ⟨j, hp, i, hij, ⟨k', w⟩, hi, hbefore⟩ := hcut
  have hi' : t i = some (k', w) := hi
  obtain ⟨⟨v, hj⟩, _⟩ := probe_eq_hit_iff.mp hp
  refine ⟨k', w, ?_, hI.lookup_eq_some.mpr ⟨i, hi'⟩, ?_⟩
  · rintro rfl
    exact hij (hI.slot_unique hi' hj)
  · -- The walk for `k'` now stops at the emptied slot `j`.
    have hreach : Reached h t k' j := by
      intro i' hi''
      exact hI i k' w hi' i' (lt_trans hi'' hbefore)
    rw [erase_of_hit hp, lookup_eq_none_iff, probe_update_none hreach]
    intro i' hi''
    cases hi''

/-- Erasing `k` keeps what another probe finds exactly if that probe does not walk through the
emptied slot.  Nothing is asked of the table. -/
theorem lookup_erase_eq_iff {j : Fin n} (hk : k' ≠ k) (hp : probe h t k = .hit j) :
    lookup h (erase h t k) k' = lookup h t k' ↔
      ∀ i, probe h t k' = .hit i → ¬ Before h k' j i := by
  obtain ⟨⟨v, hj⟩, _⟩ := probe_eq_hit_iff.mp hp
  rw [erase_of_hit hp]
  cases hl : lookup h t k' with
  | none =>
      -- an emptied slot lets no probe find more than before
      have hmiss := lookup_eq_none_iff.mp hl
      refine iff_of_true (lookup_eq_none_iff.mpr fun i hi => ?_) fun i hi => absurd hi (hmiss i)
      obtain ⟨⟨w, hw⟩, hreach⟩ := probe_eq_hit_iff.mp hi
      have hij : i ≠ j := by
        rintro rfl
        rw [Function.update_self] at hw
        cases hw
      rw [Function.update_of_ne hij] at hw
      refine hmiss i (probe_eq_hit_iff.mpr ⟨⟨w, hw⟩, fun i' hi' => ?_⟩)
      have hpass := hreach i' hi'
      by_cases hij' : i' = j
      · subst hij'
        exact absurd hpass (not_passes_of_none (Function.update_self _ _ _))
      · obtain ⟨e, he, hne⟩ := hpass
        exact ⟨e, by rwa [Function.update_of_ne hij'] at he, hne⟩
  | some w =>
      obtain ⟨i, hi, hslot⟩ := lookup_eq_some_iff_hit.mp hl
      have hreach := (probe_eq_hit_iff.mp hi).2
      have hij : i ≠ j := by
        rintro rfl
        rw [hj] at hslot
        cases hslot
        exact hk rfl
      constructor
      · intro hkept i' hi' hbefore
        cases hi.symm.trans hi'
        have hwalk : Reached h t k' j := fun x hx => hreach x (lt_trans hx hbefore)
        rw [lookup_eq_some_iff_hit, probe_update_none hwalk] at hkept
        obtain ⟨_, hhit, _⟩ := hkept
        cases hhit
      · intro hclear
        refine lookup_eq_some_iff_hit.mpr ⟨i, probe_eq_hit_iff.mpr ⟨⟨w, ?_⟩, ?_⟩, ?_⟩
        · rw [Function.update_of_ne hij, hslot]
        · intro x hx
          have hxj : x ≠ j := by
            rintro rfl
            exact hclear i hi hx
          obtain ⟨e, he, hne⟩ := hreach x hx
          exact ⟨e, by rw [Function.update_of_ne hxj, he], hne⟩
        · rw [Function.update_of_ne hij, hslot]

/-! ## How full a table is -/

/-- A table in which the probe for `k` finds no room holds `n` keys other than `k`. -/
theorem Intact.card_of_full (hI : Intact h t) (hp : probe h t k = .full) (s : Finset κ)
    (hs : ∀ k' v, lookup h t k' = some v → k' ∈ s) : n ≤ s.card := by
  have hall := probe_eq_full_iff.mp hp
  choose e he hne using hall
  have hinj : Function.Injective (fun i => (e i).1) := by
    intro i j hij
    have hi : t i = some ((e j).1, (e i).2) := by
      rw [he i]
      exact congrArg some (Prod.ext hij rfl)
    exact hI.slot_unique hi (he j)
  have hsub : Finset.univ.image (fun i => (e i).1) ⊆ s := by
    intro k' hk'
    obtain ⟨i, _, rfl⟩ := Finset.mem_image.mp hk'
    exact hs _ (e i).2 (hI.lookup_eq_some.mpr ⟨i, he i⟩)
  calc n = (Finset.univ.image (fun i => (e i).1)).card := by
        rw [Finset.card_image_of_injective _ hinj, Finset.card_univ, Fintype.card_fin]
    _ ≤ s.card := Finset.card_le_card hsub

/-- Intact tables with the same map run out of room for the same keys. -/
theorem Intact.full_of_lookup_eq (hI : Intact h t) (hI' : Intact h t')
    (hl : lookup h t = lookup h t') (hp : probe h t k = .full) : probe h t' k = .full := by
  have hall := probe_eq_full_iff.mp hp
  choose e he hne using hall
  have hmoved : ∀ i, ∃ j, t' j = some ((e i).1, (e i).2) := by
    intro i
    rw [← hI'.lookup_eq_some, ← hl, hI.lookup_eq_some]
    exact ⟨i, he i⟩
  choose f hf using hmoved
  have hinj : Function.Injective f := by
    intro i j hij
    have hsame := hf j
    rw [← hij, hf i] at hsame
    have hij' : e i = e j := Option.some_inj.mp hsame
    exact hI.slot_unique (he i) (by rw [he j, ← hij'])
  have hsurj : Function.Surjective f := Finite.surjective_of_injective hinj
  refine probe_eq_full_iff.mpr ?_
  intro j
  obtain ⟨i, rfl⟩ := hsurj j
  exact ⟨e i, hf i, hne i⟩

end OpenAddressing
end Lib
end InventixDB
