import InventixDB.Lib.ProbedMap

/-!
# ProbedSlots — what a put or a delete leaves in the slots of a table

Neither needs the chains of the table to be whole: a put adds its own entry and a delete none, and
both keep the entries of every other key in their slots.
-/

namespace InventixDB
namespace Lib

namespace OpenAddressing

variable {κ α : Type*} {n : Nat} [DecidableEq κ] [NeZero n] {h : κ → Fin n} {t : Table κ α n}
  {key : κ} {val : α}

/-- A put adds no other entry than its own. -/
theorem insert_slot {i : Fin n}
    {e : κ × α} (hentry : insert h t key val i = some e) :
    t i = some e ∨ e = (key, val) := by
  by_cases hp : probe h t key = .full
  · rw [insert_of_full hp] at hentry
    exact .inl hentry
  · obtain ⟨j, -, -, hins⟩ := insert_eq_update hp
    rw [hins] at hentry
    by_cases hij : i = j
    · subst hij
      rw [Function.update_self] at hentry
      cases hentry
      exact .inr rfl
    · rw [Function.update_of_ne hij] at hentry
      exact .inl hentry

/-- A delete adds no entry. -/
theorem erase_slot {i : Fin n} {e : κ × α}
    (hentry : erase h t key i = some e) : t i = some e := by
  cases hp : probe h t key with
  | hit j =>
      rw [erase_of_hit hp] at hentry
      by_cases hij : i = j
      · subst hij
        rw [Function.update_self] at hentry
        cases hentry
      · rwa [Function.update_of_ne hij] at hentry
  | free j => simpa [erase, hp] using hentry
  | full => simpa [erase, hp] using hentry

/-- A put overwrites only the entry of its key. -/
theorem insert_keeps {i : Fin n}
    {e : κ × α} (hentry : t i = some e) (hne : e.1 ≠ key) :
    insert h t key val i = some e := by
  by_cases hp : probe h t key = .full
  · rwa [insert_of_full hp]
  · obtain ⟨j, -, hslot, hins⟩ := insert_eq_update hp
    have hij : i ≠ j := by
      rintro rfl
      rw [hentry] at hslot
      rcases hslot with hnone | ⟨w, hown⟩
      · cases hnone
      · cases hown
        exact hne rfl
    rw [hins, Function.update_of_ne hij, hentry]

/-- A delete empties only the slot of its key. -/
theorem erase_keeps {i : Fin n} {e : κ × α}
    (hentry : t i = some e) (hne : e.1 ≠ key) : erase h t key i = some e := by
  cases hp : probe h t key with
  | hit j =>
      obtain ⟨⟨v, hv⟩, _⟩ := probe_eq_hit_iff.mp hp
      have hij : i ≠ j := by
        rintro rfl
        rw [hentry] at hv
        cases hv
        exact hne rfl
      rw [erase_of_hit hp, Function.update_of_ne hij, hentry]
  | free j => simp [erase, hp, hentry]
  | full => simp [erase, hp, hentry]

/-- A put changes at most the entry that its key is found at. -/
theorem insert_changes_iff {t' : Table κ α n} {R : κ × α → Prop}
    (hkept : ∀ i e, t i = some e → t' i = some e) :
    (∀ i e, t i = some e → insert h t' key val i ≠ some e → R e) ↔
      ∀ i w, t i = some (key, w) → probe h t' key = .hit i → w = val ∨ R (key, w) := by
  constructor
  · intro hchanges i w hi hprobe
    by_cases hsame : w = val
    · exact .inl hsame
    · refine .inr (hchanges i (key, w) hi fun hput => hsame ?_)
      rw [insert_of_hit hprobe, Function.update_self] at hput
      cases hput
      rfl
  · intro hfound i e hi hput
    by_cases hkey : e.1 = key
    · obtain ⟨k, w⟩ := e
      obtain rfl : k = key := hkey
      have hi' := hkept i _ hi
      cases hprobe : probe h t' k with
      | full =>
          rw [insert_of_full hprobe] at hput
          exact absurd hi' hput
      | free j =>
          have hij : i ≠ j := by
            rintro rfl
            rw [(probe_eq_free_iff.mp hprobe).1] at hi'
            cases hi'
          rw [insert_of_free hprobe, Function.update_of_ne hij] at hput
          exact absurd hi' hput
      | hit j =>
          by_cases hij : i = j
          · subst hij
            rcases hfound i w hi hprobe with rfl | hR
            · rw [insert_of_hit hprobe, Function.update_self] at hput
              exact absurd rfl hput
            · exact hR
          · rw [insert_of_hit hprobe, Function.update_of_ne hij] at hput
            exact absurd hi' hput
    · exact absurd (insert_keeps (hkept i e hi) hkey) hput

theorem erase_changes_iff {R : κ × α → Prop} :
    (∀ i e, t i = some e → erase h t key i ≠ some e → R e) ↔
      ∀ i w, t i = some (key, w) → probe h t key = .hit i → R (key, w) := by
  constructor
  · intro hchanges i w hi hprobe
    refine hchanges i (key, w) hi ?_
    rw [erase_of_hit hprobe, Function.update_self]
    simp
  · intro hfound i e hi herase
    by_cases hkey : e.1 = key
    · obtain ⟨k, w⟩ := e
      obtain rfl : k = key := hkey
      cases hprobe : probe h t k with
      | full => exact absurd (by simpa [erase, hprobe] using hi) herase
      | free j => exact absurd (by simpa [erase, hprobe] using hi) herase
      | hit j =>
          by_cases hij : i = j
          · subst hij
            exact hfound i w hi hprobe
          · rw [erase_of_hit hprobe, Function.update_of_ne hij] at herase
            exact absurd hi herase
    · exact absurd (erase_keeps hi hkey) herase

/-- Two slots hold one key after a put only if they did before, or if the put key was not found
where it is stored. -/
theorem insert_key_unique {P : κ → Prop}
    (hunique : ∀ i j e e', t i = some e → t j = some e' → P e.1 → e.1 = e'.1 → i = j)
    (hfresh : P key → lookup h t key = none → ∀ i e, t i = some e → e.1 ≠ key)
    {i j : Fin n} {e e' : κ × α} (hi : insert h t key val i = some e)
    (hj : insert h t key val j = some e') (hP : P e.1) (hkeys : e.1 = e'.1) : i = j := by
  cases hp : probe h t key with
  | full =>
      rw [insert_of_full hp] at hi hj
      exact hunique i j e e' hi hj hP hkeys
  | hit k =>
      obtain ⟨⟨v, hv⟩, _⟩ := probe_eq_hit_iff.mp hp
      -- the keys of all slots are as before
      have hbefore : ∀ {i : Fin n} {e : κ × α}, insert h t key val i = some e →
          ∃ old, t i = some old ∧ old.1 = e.1 := by
        intro i e hentry
        rw [insert_of_hit hp] at hentry
        by_cases hik : i = k
        · subst hik
          rw [Function.update_self] at hentry
          cases hentry
          exact ⟨_, hv, rfl⟩
        · rw [Function.update_of_ne hik] at hentry
          exact ⟨e, hentry, rfl⟩
      obtain ⟨old, hold, hkey⟩ := hbefore hi
      obtain ⟨old', hold', hkey'⟩ := hbefore hj
      refine hunique i j old old' hold hold' (hkey ▸ hP) ?_
      rw [hkey, hkey', hkeys]
  | free k =>
      have hnone : lookup h t key = none := by simp [lookup, hp]
      have hslot : ∀ {i : Fin n} {e : κ × α}, insert h t key val i = some e →
          (i = k ∧ e.1 = key) ∨ (i ≠ k ∧ t i = some e) := by
        intro i e hentry
        rw [insert_of_free hp] at hentry
        by_cases hik : i = k
        · subst hik
          rw [Function.update_self] at hentry
          cases hentry
          exact .inl ⟨rfl, rfl⟩
        · rw [Function.update_of_ne hik] at hentry
          exact .inr ⟨hik, hentry⟩
      rcases hslot hi with ⟨rfl, hkey⟩ | ⟨_, hti⟩ <;>
        rcases hslot hj with ⟨hjk, hkey'⟩ | ⟨_, htj⟩
      · exact hjk.symm
      · exact absurd (hkeys.symm.trans hkey) (hfresh (hkey ▸ hP) hnone j e' htj)
      · exact absurd (hkeys.trans hkey') (hfresh (hkey' ▸ hkeys ▸ hP) hnone i e hti)
      · exact hunique i j e e' hti htj hP hkeys

/-! ## Entries by weight -/

omit [DecidableEq κ] [NeZero n] in
/-- The entry of one slot, and those of the others. -/
theorem perm_toList_slot (t : Table κ α n) (j : Fin n) :
    (toList t).Perm ((t j).toList ++ ((List.finRange n).erase j).filterMap t) := by
  have hperm := (List.perm_cons_erase (List.mem_finRange j)).filterMap t
  have hcons : (j :: (List.finRange n).erase j).filterMap t =
      (t j).toList ++ ((List.finRange n).erase j).filterMap t := by
    cases hj : t j <;> simp [hj]
  rw [hcons] at hperm
  exact hperm

omit [DecidableEq κ] [NeZero n] in
theorem sum_toList_update_le (w : κ × α → Nat) (t : Table κ α n) (j : Fin n) (e : κ × α) :
    ((toList (Function.update t j (some e))).map w).sum ≤ w e + ((toList t).map w).sum := by
  have hothers : ((List.finRange n).erase j).filterMap (Function.update t j (some e)) =
      ((List.finRange n).erase j).filterMap t := by
    refine List.filterMap_congr fun i hi => ?_
    have hij : i ≠ j := by
      rintro rfl
      exact (List.nodup_finRange n).not_mem_erase hi
    exact Function.update_of_ne hij _ _
  have hafter := ((perm_toList_slot (Function.update t j (some e)) j).map w).sum_nat
  have hbefore := ((perm_toList_slot t j).map w).sum_nat
  rw [hothers, Function.update_self, List.map_append, List.sum_append] at hafter
  rw [List.map_append, List.sum_append] at hbefore
  have hone : ((some e).toList.map w).sum = w e := by simp
  omega

/-- A put adds no more than the weight of its own entry. -/
theorem sum_toList_insert_le (w : κ × α → Nat) :
    ((toList (insert h t key val)).map w).sum ≤ w (key, val) + ((toList t).map w).sum := by
  cases hp : probe h t key with
  | full =>
      rw [insert_of_full hp]
      exact Nat.le_add_left _ _
  | hit j =>
      rw [insert_of_hit hp]
      exact sum_toList_update_le w t j _
  | free j =>
      rw [insert_of_free hp]
      exact sum_toList_update_le w t j _

/-! ## Entries by number -/

/-- A put of a key that is found adds no entry. -/
theorem length_toList_insert_of_some {v : α} (hl : lookup h t key = some v) :
    (toList (insert h t key val)).length = (toList t).length := by
  obtain ⟨j, hp, hj⟩ := lookup_eq_some_iff_hit.mp hl
  have hothers : ((List.finRange n).erase j).filterMap (insert h t key val) =
      ((List.finRange n).erase j).filterMap t := by
    refine List.filterMap_congr fun i hi => ?_
    have hij : i ≠ j := by
      rintro rfl
      exact (List.nodup_finRange n).not_mem_erase hi
    rw [insert_of_hit hp]
    exact Function.update_of_ne hij _ _
  have hslot : insert h t key val j = some (key, val) := by
    rw [insert_of_hit hp]
    exact Function.update_self _ _ _
  rw [(perm_toList_slot (insert h t key val) j).length_eq, (perm_toList_slot t j).length_eq,
    hothers, hslot, hj]
  rfl

theorem length_toList_insert_le (h : κ → Fin n) (t : Table κ α n) (key : κ) (val : α) :
    (toList (insert h t key val)).length ≤ 1 + (toList t).length := by
  have hsum := @sum_toList_insert_le κ α n _ _ h t key val fun _ => 1
  simpa using hsum

/-- A probe of a table with an empty slot ends. -/
theorem probe_ne_full_of_length_lt (hlt : (toList t).length < n) : probe h t key ≠ .full := by
  intro hfull
  have hall := probe_eq_full_iff.mp hfull
  have hlength : (toList t).length = n := by
    calc (toList t).length = (List.finRange n).length := by
          unfold toList
          rw [List.length_filterMap_eq_countP, List.countP_eq_length]
          intro i _
          obtain ⟨e, he, _⟩ := hall i
          rw [he]
          rfl
      _ = n := List.length_finRange
  omega

/-- In a table without an empty slot, a key that is not found has no room. -/
theorem probe_full_of_lookup_none {k : κ} (hfull : probe h t key = .full)
    (hl : lookup h t k = none) : probe h t k = .full := by
  cases hp : probe h t k with
  | full => rfl
  | hit i => exact absurd hp (lookup_eq_none_iff.mp hl i)
  | free i =>
      obtain ⟨e, he, _⟩ := probe_eq_full_iff.mp hfull i
      rw [(probe_eq_free_iff.mp hp).1] at he
      cases he

/-! ## Keys a table holds -/

/-- Some slot holds the key, found or not. -/
def Holds (t : Table κ α n) (key : κ) : Prop :=
  ∃ i, (t i).map Prod.fst = some key

instance decidableHolds (t : Table κ α n) (key : κ) : Decidable (Holds t key) :=
  inferInstanceAs (Decidable (∃ i, (t i).map Prod.fst = some key))

theorem holds_of_insert {k : κ} (hkey : Holds (insert h t key val) k) : Holds t k ∨ k = key := by
  obtain ⟨i, hi⟩ := hkey
  obtain ⟨e, hentry, rfl⟩ := Option.map_eq_some_iff.mp hi
  rcases insert_slot hentry with hold | rfl
  · exact .inl ⟨i, by rw [hold]; rfl⟩
  · exact .inr rfl

theorem holds_of_erase {k : κ} (hkey : Holds (erase h t key) k) : Holds t k := by
  obtain ⟨i, hi⟩ := hkey
  obtain ⟨e, hentry, rfl⟩ := Option.map_eq_some_iff.mp hi
  exact ⟨i, by rw [erase_slot hentry]; rfl⟩

theorem holds_of_lookup {k : κ} {v : α} (hl : lookup h t k = some v) : Holds t k := by
  obtain ⟨i, _, hi⟩ := lookup_eq_some_iff_hit.mp hl
  exact ⟨i, by rw [hi]; rfl⟩

/-- No key is lost, and every new key is one of `P`. -/
structure Grows (P : κ → Prop) (before after : Table κ α n) : Prop where
  keeps : ∀ key, Holds before key → Holds after key
  adds : ∀ key, Holds after key → Holds before key ∨ P key

section Grows

variable {P Q : κ → Prop} {before middle after : Table κ α n}

omit [DecidableEq κ] [NeZero n] in
theorem Grows.refl (P : κ → Prop) (t : Table κ α n) : Grows P t t where
  keeps _ hkey := hkey
  adds _ hkey := .inl hkey

omit [DecidableEq κ] [NeZero n] in
theorem Grows.trans (h₁ : Grows P before middle) (h₂ : Grows P middle after) :
    Grows P before after where
  keeps key hkey := h₂.keeps key (h₁.keeps key hkey)
  adds key hkey := (h₂.adds key hkey).elim (h₁.adds key) .inr

omit [DecidableEq κ] [NeZero n] in
theorem Grows.mono (hgrows : Grows P before after) (hPQ : ∀ key, P key → Q key) :
    Grows Q before after where
  keeps := hgrows.keeps
  adds key hkey := (hgrows.adds key hkey).imp_right (hPQ key)

theorem holds_insert {k : κ} (hkey : Holds t k) : Holds (insert h t key val) k := by
  obtain ⟨i, hi⟩ := hkey
  obtain ⟨⟨k, v⟩, hentry, rfl⟩ := Option.map_eq_some_iff.mp hi
  by_cases hk : k = key
  · subst hk
    -- the slot keeps its key: a put in another slot leaves it, and one in this slot renews it
    refine ⟨i, ?_⟩
    cases hp : probe h t k with
    | full => rw [insert_of_full hp, hi]
    | hit j =>
        rw [insert_of_hit hp]
        by_cases hij : i = j
        · subst hij
          rw [Function.update_self]
          rfl
        · rw [Function.update_of_ne hij, hi]
    | free j =>
        obtain ⟨hnone, _⟩ := probe_eq_free_iff.mp hp
        have hij : i ≠ j := by
          rintro rfl
          rw [hentry] at hnone
          cases hnone
        rw [insert_of_free hp, Function.update_of_ne hij, hi]
  · exact ⟨i, by rw [insert_keeps hentry hk]; rfl⟩

theorem grows_insert (t : Table κ α n) (val : α) (hkey : P key) :
    Grows P t (insert h t key val) where
  keeps _ := holds_insert
  adds k hk := by
    rcases holds_of_insert hk with hold | rfl
    · exact .inl hold
    · exact .inr hkey

end Grows

end OpenAddressing

end Lib
end InventixDB
