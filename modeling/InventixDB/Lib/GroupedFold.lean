import Mathlib.Data.List.Basic

/-!
# GroupedFold — one accumulator for each key

Rows with a key and a value are taken one after the other into a list of accumulators, each of
which knows its key: the accumulator of the row's key takes the value, and a key that has none yet
gets one in front.  Whatever the order of the keys, each accumulator ends as the fold of the values
of its own key.
-/

namespace InventixDB
namespace Lib
namespace GroupedFold

/-- An accumulator `α` of values `β` for the keys `κ`. -/
structure Accumulator (κ β α : Type) where
  key : α → κ
  init : κ → α
  take : α → β → α
  key_init : ∀ k, key (init k) = k
  key_take : ∀ a v, key (take a v) = key a

variable {κ β α : Type} [DecidableEq κ] {acc : Accumulator κ β α} {rows : List (κ × β)}
  {groups : List α}

namespace Accumulator

/-- The accumulator of `k` takes `v`. -/
def put (acc : Accumulator κ β α) (groups : List α) (k : κ) (v : β) : List α :=
  match groups.findIdx? fun a => acc.key a = k with
  | some i => groups.modify i fun a => acc.take a v
  | none => acc.take (acc.init k) v :: groups

/-- All rows, the first one first. -/
def collect (acc : Accumulator κ β α) (rows : List (κ × β)) : List α :=
  rows.foldl (fun groups row => acc.put groups row.1 row.2) []

/-- The accumulator of a key after the values `vs`. -/
def after (acc : Accumulator κ β α) (k : κ) (vs : List β) : α :=
  vs.foldl acc.take (acc.init k)

omit [DecidableEq κ] in
@[simp] theorem key_after (k : κ) (vs : List β) : acc.key (acc.after k vs) = k := by
  rw [after]
  generalize hinit : acc.init k = a
  have hkey : acc.key a = k := hinit ▸ acc.key_init k
  clear hinit
  induction vs generalizing a with
  | nil => exact hkey
  | cons v vs ih => exact ih _ ((acc.key_take a v).trans hkey)

omit [DecidableEq κ] in
theorem after_concat (k : κ) (vs : List β) (v : β) :
    acc.after k (vs ++ [v]) = acc.take (acc.after k vs) v := by
  rw [after, List.foldl_append]
  rfl

end Accumulator

/-- The values of one key, in the order of the rows. -/
def valuesOf (rows : List (κ × β)) (k : κ) : List β :=
  (rows.filter fun row => row.1 = k).map Prod.snd

@[simp] theorem valuesOf_concat_self (k : κ) (v : β) :
    valuesOf (rows ++ [(k, v)]) k = valuesOf rows k ++ [v] := by
  simp [valuesOf]

theorem valuesOf_concat_of_ne {k k' : κ} (hne : k ≠ k') (v : β) :
    valuesOf (rows ++ [(k, v)]) k' = valuesOf rows k' := by
  simp [valuesOf, hne]

theorem valuesOf_of_notMem {k : κ} (hnew : k ∉ rows.map Prod.fst) : valuesOf rows k = [] := by
  rw [valuesOf, List.map_eq_nil_iff, List.filter_eq_nil_iff]
  intro row hrow hkey
  exact hnew (List.mem_map.mpr ⟨row, hrow, of_decide_eq_true hkey⟩)

/-- The accumulators after `rows`: one for each key, which has taken the values of that key. -/
structure Collected (acc : Accumulator κ β α) (rows : List (κ × β)) (groups : List α) : Prop where
  nodup : (groups.map acc.key).Nodup
  keys : ∀ k, k ∈ groups.map acc.key ↔ k ∈ rows.map Prod.fst
  holds : ∀ a ∈ groups, a = acc.after (acc.key a) (valuesOf rows (acc.key a))

/-- With distinct keys, to change the accumulator found is to change those of the key. -/
theorem modify_found (hnodup : (groups.map acc.key).Nodup) {k : κ} {i : Nat}
    (hfound : (groups.findIdx? fun a => acc.key a = k) = some i) (f : α → α) :
    groups.modify i f = groups.map fun a => if acc.key a = k then f a else a := by
  induction groups generalizing i with
  | nil => cases hfound
  | cons a groups ih =>
      rw [List.map_cons, List.nodup_cons] at hnodup
      rw [List.findIdx?_cons] at hfound
      by_cases hkey : acc.key a = k
      · rw [if_pos (decide_eq_true hkey)] at hfound
        cases hfound
        have hrest : groups.map (fun a => if acc.key a = k then f a else a) = groups := by
          refine (List.map_congr_left fun b hb => ?_).trans (List.map_id groups)
          exact if_neg fun hb' => hnodup.1 (List.mem_map.mpr ⟨b, hb, hb'.trans hkey.symm⟩)
        rw [List.modify_zero_cons, List.map_cons, if_pos hkey, hrest]
      · rw [if_neg (by simpa using hkey)] at hfound
        obtain ⟨j, hj, rfl⟩ := Option.map_eq_some_iff.mp hfound
        rw [List.modify_succ_cons, List.map_cons, if_neg hkey, ih hnodup.2 hj]

/-- One row. -/
theorem Collected.put (hgroups : Collected acc rows groups) (k : κ) (v : β) :
    Collected acc (rows ++ [(k, v)]) (acc.put groups k v) := by
  rw [Accumulator.put]
  split
  · next i hfound =>
      have hmem : k ∈ groups.map acc.key := by
        obtain ⟨hi, hkey, _⟩ := List.findIdx?_eq_some_iff_getElem.mp hfound
        exact List.mem_map.mpr ⟨_, List.getElem_mem hi, of_decide_eq_true hkey⟩
      rw [modify_found hgroups.nodup hfound]
      have hkey : ∀ a, acc.key (if acc.key a = k then acc.take a v else a) = acc.key a := by
        intro a
        split
        · exact acc.key_take a v
        · rfl
      have hkeys : (groups.map fun a => if acc.key a = k then acc.take a v else a).map acc.key =
          groups.map acc.key := by
        rw [List.map_map]
        exact List.map_congr_left fun a _ => hkey a
      constructor
      · rw [hkeys]
        exact hgroups.nodup
      · intro k'
        rw [hkeys, hgroups.keys, List.map_append, List.mem_append, List.map_singleton,
          List.mem_singleton]
        refine ⟨Or.inl, ?_⟩
        rintro (hold | rfl)
        · exact hold
        · exact (hgroups.keys _).mp hmem
      · intro b hb
        obtain ⟨a, ha, rfl⟩ := List.mem_map.mp hb
        rw [hkey]
        split
        · next heq =>
            rw [heq, valuesOf_concat_self, Accumulator.after_concat, ← heq,
              ← hgroups.holds a ha]
        · next hne =>
            rw [valuesOf_concat_of_ne (Ne.symm hne)]
            exact hgroups.holds a ha
  · next hfound =>
      have hnew : k ∉ groups.map acc.key := by
        intro hmem
        obtain ⟨a, ha, hkey⟩ := List.mem_map.mp hmem
        exact absurd hkey (by simpa using List.findIdx?_eq_none_iff.mp hfound a ha)
      have hkey : acc.key (acc.take (acc.init k) v) = k :=
        (acc.key_take _ v).trans (acc.key_init k)
      constructor
      · rw [List.map_cons, hkey, List.nodup_cons]
        exact ⟨hnew, hgroups.nodup⟩
      · intro k'
        rw [List.map_cons, hkey, List.mem_cons, hgroups.keys, List.map_append, List.mem_append,
          List.map_singleton, List.mem_singleton]
        exact or_comm
      · intro a ha
        rcases List.mem_cons.mp ha with rfl | hold
        · rw [hkey, valuesOf_concat_self, valuesOf_of_notMem fun h => hnew ((hgroups.keys k).mpr h)]
          rfl
        · have hne : k ≠ acc.key a := by
            intro heq
            exact hnew (heq ▸ List.mem_map_of_mem hold)
          rw [valuesOf_concat_of_ne hne]
          exact hgroups.holds a hold

/-- All rows. -/
theorem collected_collect (rows : List (κ × β)) : Collected acc rows (acc.collect rows) := by
  have hrun : ∀ (later done : List (κ × β)) (groups : List α), Collected acc done groups →
      Collected acc (done ++ later)
        (later.foldl (fun groups row => acc.put groups row.1 row.2) groups) := by
    intro later
    induction later with
    | nil =>
        intro done groups hdone
        rw [List.append_nil]
        exact hdone
    | cons row later ih =>
        intro done groups hdone
        have hnext := ih _ _ (hdone.put row.1 row.2)
        rwa [List.append_assoc] at hnext
  refine hrun rows [] [] ⟨List.nodup_nil, fun k => ?_, fun a ha => ?_⟩
  · rw [List.map_nil, List.map_nil]
  · cases ha

/-- An accumulator behind a row was there before or has taken it. -/
theorem mem_put {k : κ} {v : β} {b : α} (hb : b ∈ acc.put groups k v) :
    b ∈ groups ∨ ∃ a, (a = acc.init k ∨ a ∈ groups) ∧ b = acc.take a v := by
  rw [Accumulator.put] at hb
  split at hb
  · next i hfound =>
      obtain ⟨j, hj⟩ := List.mem_iff_getElem?.mp hb
      rw [List.getElem?_modify] at hj
      obtain ⟨a, ha, rfl⟩ := Option.map_eq_some_iff.mp hj
      have hmem := List.mem_of_getElem? ha
      split
      · exact .inr ⟨a, .inr hmem, rfl⟩
      · exact .inl hmem
  · rcases List.mem_cons.mp hb with rfl | hb
    · exact .inr ⟨_, .inl rfl, rfl⟩
    · exact .inl hb

/-! ## Images -/

/-- A map of the elements passes through a change of one of them. -/
theorem modify_map {α' : Type} {f : α → α'} {g : α → α} {g' : α' → α'}
    (hmap : ∀ a ∈ groups, g' (f a) = f (g a)) (i : Nat) :
    (groups.map f).modify i g' = (groups.modify i g).map f := by
  induction groups generalizing i with
  | nil => cases i <;> rfl
  | cons a groups ih =>
      cases i with
      | zero => rw [List.map_cons, List.modify_zero_cons, List.modify_zero_cons, List.map_cons,
          hmap a List.mem_cons_self]
      | succ i => rw [List.map_cons, List.modify_succ_cons, List.modify_succ_cons, List.map_cons,
          ih fun b hb => hmap b (List.mem_cons_of_mem _ hb)]

/-- One accumulator is the image of another one if new ones and the ones there are, are. -/
theorem put_map {α' β' : Type} {acc' : Accumulator κ β' α'} {f : α → α'} {k : κ} {v : β} {v' : β'}
    (hkey : ∀ a, acc'.key (f a) = acc.key a) (hinit : acc'.init k = f (acc.init k))
    (htake : ∀ a, a = acc.init k ∨ a ∈ groups → acc'.take (f a) v' = f (acc.take a v)) :
    acc'.put (groups.map f) k v' = (acc.put groups k v).map f := by
  have hfind : (groups.map f).findIdx? (fun a => decide (acc'.key a = k)) =
      groups.findIdx? fun a => decide (acc.key a = k) := by
    rw [List.findIdx?_map]
    congr 1
    funext a
    rw [Function.comp_apply, hkey]
  rw [Accumulator.put, Accumulator.put, hfind]
  split
  · exact modify_map (fun a ha => htake a (.inr ha)) _
  · rw [List.map_cons, hinit, htake _ (.inl rfl)]

end GroupedFold
end Lib
end InventixDB
