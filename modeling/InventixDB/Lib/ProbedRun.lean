import InventixDB.Lib.ProbedMap

/-!
# ProbedRun — lists of table operations

`SafeOps` says that no insert of a run is dropped and no erase of it cuts a chain.  Such a run
acts on the table as `mapOps` acts on its map (`SafeOps.lookup_applyOps`).  On maps, what a run
leaves under a key it touches does not depend on the start (`mapOps_of_touched`), so running
the same operations again changes nothing (`mapOps_mapOps`).
-/

namespace InventixDB
namespace Lib
namespace OpenAddressing

variable {κ α : Type*} {n : Nat}

/-! ## Operations on maps -/

/-- One table operation. -/
inductive Op (κ α : Type*)
  | put (k : κ) (v : α)
  | del (k : κ)
  deriving DecidableEq, Repr

/-- The key an operation is about. -/
def Op.key : Op κ α → κ
  | .put k _ => k
  | .del k => k

/-- The key's value after the operation. -/
def Op.result : Op κ α → Option α
  | .put _ v => some v
  | .del _ => none

/-- Some operation of the run is about `k`. -/
def Touched (k : κ) (ops : List (Op κ α)) : Prop :=
  ∃ op ∈ ops, op.key = k

variable [DecidableEq κ]

instance (k : κ) (ops : List (Op κ α)) : Decidable (Touched k ops) := by
  unfold Touched
  infer_instance

def Op.onMap (m : κ → Option α) (op : Op κ α) : κ → Option α :=
  Function.update m op.key op.result

/-- A run of operations on a map. -/
def mapOps (m : κ → Option α) (ops : List (Op κ α)) : κ → Option α :=
  ops.foldl Op.onMap m

@[simp]
theorem mapOps_nil (m : κ → Option α) : mapOps m [] = m := rfl

@[simp]
theorem mapOps_cons (m : κ → Option α) (op : Op κ α) (ops : List (Op κ α)) :
    mapOps m (op :: ops) = mapOps (op.onMap m) ops := rfl

theorem mapOps_append (m : κ → Option α) (ops ops' : List (Op κ α)) :
    mapOps m (ops ++ ops') = mapOps (mapOps m ops) ops' := by
  exact List.foldl_append

theorem mapOps_of_not_touched {k : κ} {ops : List (Op κ α)} (hk : ¬ Touched k ops)
    (m : κ → Option α) : mapOps m ops k = m k := by
  induction ops generalizing m with
  | nil => rfl
  | cons op ops ih =>
      have hop : k ≠ op.key := by
        rintro rfl
        exact hk ⟨op, List.mem_cons_self, rfl⟩
      have hrest : ¬ Touched k ops := by
        rintro ⟨op', hmem, hkey⟩
        exact hk ⟨op', List.mem_cons_of_mem _ hmem, hkey⟩
      rw [mapOps_cons, ih hrest, Op.onMap, Function.update_of_ne hop]

/-- What a run leaves under a key it touches does not depend on where it started. -/
theorem mapOps_of_touched {k : κ} {ops : List (Op κ α)} (hk : Touched k ops)
    (m m' : κ → Option α) : mapOps m ops k = mapOps m' ops k := by
  induction ops generalizing m m' with
  | nil =>
      obtain ⟨op, hmem, _⟩ := hk
      cases hmem
  | cons op ops ih =>
      rw [mapOps_cons, mapOps_cons]
      by_cases hrest : Touched k ops
      · exact ih hrest _ _
      · -- Only the head touches `k`, and the rest keeps the head's result.
        have hop : op.key = k := by
          obtain ⟨op', hmem, hkey⟩ := hk
          cases hmem with
          | head => exact hkey
          | tail _ hmem => exact absurd ⟨op', hmem, hkey⟩ hrest
        subst hop
        rw [mapOps_of_not_touched hrest, mapOps_of_not_touched hrest, Op.onMap, Op.onMap,
          Function.update_self, Function.update_self]

/-- Running the same operations a second time changes nothing. -/
theorem mapOps_mapOps (m : κ → Option α) (ops : List (Op κ α)) :
    mapOps (mapOps m ops) ops = mapOps m ops := by
  funext k
  by_cases hk : Touched k ops
  · exact mapOps_of_touched hk _ _
  · exact mapOps_of_not_touched hk _

/-- Puts of distinct keys leave exactly their own pairs and what they did not touch. -/
theorem mapOps_puts {l : List (κ × α)} (hnodup : (l.map Prod.fst).Nodup) (k : κ) (v : α) :
    mapOps (fun _ => none) (l.map fun e => Op.put e.1 e.2) k = some v ↔ (k, v) ∈ l := by
  suffices hgen : ∀ m : κ → Option α, mapOps m (l.map fun e => Op.put e.1 e.2) k = some v ↔
      (k, v) ∈ l ∨ (k ∉ l.map Prod.fst ∧ m k = some v) by
    simpa using hgen (fun _ => none)
  intro m
  induction l generalizing m with
  | nil => simp
  | cons e l ih =>
      obtain ⟨k₀, v₀⟩ := e
      rw [List.map_cons, List.nodup_cons] at hnodup
      obtain ⟨hfresh, htail⟩ := hnodup
      rw [List.map_cons, mapOps_cons, ih htail]
      by_cases hk : k = k₀
      · subst hk
        have hnot : (k, v) ∉ l := by
          intro hmem
          exact hfresh (List.mem_map.mpr ⟨(k, v), hmem, rfl⟩)
        have hfresh' : k ∉ l.map Prod.fst := hfresh
        simp only [hnot, hfresh', Op.onMap, Op.key, Op.result, Function.update_self, false_or,
          not_false_eq_true, true_and, List.mem_cons, Prod.mk.injEq, or_false, List.map_cons,
          not_true_eq_false, false_and]
        rw [Option.some_inj]
        exact eq_comm
      · simp [Op.onMap, Op.key, hk]

/-! ## Runs on tables -/

variable [NeZero n] {h : κ → Fin n} {t : Table κ α n}

/-- One operation on a table. -/
def Op.apply (h : κ → Fin n) (t : Table κ α n) : Op κ α → Table κ α n
  | .put k v => insert h t k v
  | .del k => erase h t k

/-- A run of operations on a table. -/
def applyOps (h : κ → Fin n) (t : Table κ α n) (ops : List (Op κ α)) : Table κ α n :=
  ops.foldl (Op.apply h) t

@[simp]
theorem applyOps_nil : applyOps h t [] = t := rfl

@[simp]
theorem applyOps_cons (op : Op κ α) (ops : List (Op κ α)) :
    applyOps h t (op :: ops) = applyOps h (op.apply h t) ops := rfl

theorem applyOps_append (ops ops' : List (Op κ α)) :
    applyOps h t (ops ++ ops') = applyOps h (applyOps h t ops) ops' := by
  exact List.foldl_append

/-- The insert is not dropped, or the erase cuts no chain. -/
def Op.Fits (h : κ → Fin n) (t : Table κ α n) : Op κ α → Prop
  | .put k _ => probe h t k ≠ .full
  | .del k => ¬ CutsChain h t k

instance (t : Table κ α n) : (op : Op κ α) → Decidable (op.Fits h t)
  | .put k _ => inferInstanceAs (Decidable (probe h t k ≠ .full))
  | .del k => inferInstanceAs (Decidable (¬ CutsChain h t k))

/-- Every operation of the run fits the table it meets. -/
def SafeOps (h : κ → Fin n) : Table κ α n → List (Op κ α) → Prop
  | _, [] => True
  | t, op :: ops => op.Fits h t ∧ SafeOps h (op.apply h t) ops

instance decidableSafeOps : (t : Table κ α n) → (ops : List (Op κ α)) → Decidable (SafeOps h t ops)
  | _, [] => isTrue trivial
  | t, op :: ops =>
      haveI := decidableSafeOps (op.apply h t) ops
      inferInstanceAs (Decidable (_ ∧ _))

theorem SafeOps.append {ops ops' : List (Op κ α)} :
    SafeOps h t (ops ++ ops') ↔ SafeOps h t ops ∧ SafeOps h (applyOps h t ops) ops' := by
  induction ops generalizing t with
  | nil => simp [SafeOps]
  | cons op ops ih => simp [SafeOps, ih, and_assoc]

/-- One fitting operation keeps the table intact and acts as a map update. -/
theorem Intact.apply (hI : Intact h t) {op : Op κ α} (hfits : op.Fits h t) :
    Intact h (op.apply h t) ∧ lookup h (op.apply h t) = op.onMap (lookup h t) := by
  cases op with
  | put k v => exact ⟨hI.insert k v, hI.lookup_insert hfits⟩
  | del k => exact ⟨(intact_erase_iff hI).mpr hfits, hI.lookup_erase hfits⟩

theorem SafeOps.intact_applyOps (hI : Intact h t) {ops : List (Op κ α)}
    (hs : SafeOps h t ops) : Intact h (applyOps h t ops) := by
  induction ops generalizing t with
  | nil => exact hI
  | cons op ops ih => exact ih (hI.apply hs.1).1 hs.2

/-- A safe run acts on the table as it acts on the map. -/
theorem SafeOps.lookup_applyOps (hI : Intact h t) {ops : List (Op κ α)}
    (hs : SafeOps h t ops) : lookup h (applyOps h t ops) = mapOps (lookup h t) ops := by
  induction ops generalizing t with
  | nil => rfl
  | cons op ops ih =>
      obtain ⟨hI', hl⟩ := hI.apply hs.1
      rw [applyOps_cons, ih hI' hs.2, hl, mapOps_cons]

/-! ## Reloading a table from the list of its entries -/

/-- Puts alone are safe as long as the table has room for all of them. -/
theorem safeOps_puts (hI : Intact h t) (l : List (κ × α)) (s : Finset κ)
    (hs : ∀ k v, lookup h t k = some v → k ∈ s) (hroom : s.card + l.length ≤ n) :
    SafeOps h t (l.map fun e => Op.put e.1 e.2) := by
  induction l generalizing t s with
  | nil => trivial
  | cons e l ih =>
      obtain ⟨k₀, v₀⟩ := e
      rw [List.length_cons] at hroom
      have hfits : probe h t k₀ ≠ .full := by
        intro hfull
        have hcard := hI.card_of_full hfull s hs
        omega
      refine ⟨hfits, ih (hI.insert k₀ v₀) (Insert.insert k₀ s) ?_ ?_⟩
      · intro k v hk
        change lookup h (OpenAddressing.insert h t k₀ v₀) k = some v at hk
        rw [hI.lookup_insert hfits] at hk
        by_cases hkk : k = k₀
        · exact Finset.mem_insert.mpr (Or.inl hkk)
        · rw [Function.update_of_ne hkk] at hk
          exact Finset.mem_insert_of_mem (hs k v hk)
      · have hcard := Finset.card_insert_le k₀ s
        omega

omit [DecidableEq κ] [NeZero n] in
theorem length_toList_le (t : Table κ α n) : (toList t).length ≤ n := by
  calc (toList t).length ≤ (List.finRange n).length := List.length_filterMap_le _ _
    _ = n := List.length_finRange

/-- Loading the entries of an intact table into an empty one gives the same map. -/
theorem Intact.reload (hI : Intact h t) :
    SafeOps h (empty : Table κ α n) ((toList t).map fun e => Op.put e.1 e.2) ∧
      lookup h (applyOps h empty ((toList t).map fun e => Op.put e.1 e.2)) = lookup h t := by
  have hsafe : SafeOps h (empty : Table κ α n) ((toList t).map fun e => Op.put e.1 e.2) := by
    refine safeOps_puts intact_empty (toList t) ∅ ?_ ?_
    · intro k v hk
      rw [lookup_empty] at hk
      cases hk
    · simpa using length_toList_le t
  refine ⟨hsafe, ?_⟩
  rw [hsafe.lookup_applyOps intact_empty]
  have hnone : lookup h (empty : Table κ α n) = fun _ => none := by
    funext k
    exact lookup_empty
  rw [hnone]
  funext k
  refine Option.ext ?_
  intro v
  rw [mapOps_puts hI.nodup_keys, hI.mem_toList_iff]

end OpenAddressing
end Lib
end InventixDB
