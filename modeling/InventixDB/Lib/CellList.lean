import Mathlib.Data.List.Nodup
import Mathlib.Data.List.Perm.Subperm

/-!
# CellList — singly linked lists in a memory of cells

A memory is the list of the cells allocated so far; a freed cell is `none`, and a pointer to a cell
is its place.  A segment is the list of the cells on the way from one pointer to another.
-/

namespace InventixDB
namespace Lib
namespace CellList

variable {α : Type*}

structure Cell (α : Type*) where
  value : α
  next : Option Nat
  deriving DecidableEq

abbrev Memory (α : Type*) := List (Option (Cell α))

def load (m : Memory α) (x : Nat) : Option (Cell α) :=
  m[x]?.join

/-- The new cell is the last one. -/
def alloc (m : Memory α) (c : Cell α) : Memory α :=
  m ++ [some c]

def free (m : Memory α) (x : Nat) : Memory α :=
  m.set x none

def setNext (m : Memory α) (x : Nat) (q : Option Nat) : Option (Memory α) :=
  (load m x).map fun c => m.set x (some { c with next := q })

/-- The values from a pointer on; `none` is a bad pointer or no fuel left. -/
def read : Nat → Memory α → Option Nat → Option (List α)
  | _, _, none => some []
  | 0, _, some _ => none
  | fuel + 1, m, some x => do
      let c ← load m x
      let rest ← read fuel m c.next
      some (c.value :: rest)

/-- From `p` the cells lead to `q`. -/
def Segment (m : Memory α) : Option Nat → List (Nat × α) → Option Nat → Prop
  | p, [], q => p = q
  | p, (x, v) :: rest, q => p = some x ∧ ∃ next, load m x = some ⟨v, next⟩ ∧ Segment m next rest q

variable {m m' : Memory α} {p q r : Option Nat} {xs ys : List (Nat × α)} {x y : Nat} {v : α}

/-! ## Cells -/

theorem lt_length_of_load {c : Cell α} (hload : load m x = some c) : x < m.length := by
  by_contra hle
  rw [load, List.getElem?_eq_none (Nat.le_of_not_lt hle)] at hload
  cases hload

theorem load_free_of_ne (hne : x ≠ y) : load (free m x) y = load m y := by
  rw [load, free, List.getElem?_set_ne hne, load]

theorem load_alloc_of_lt {c : Cell α} (hlt : x < m.length) : load (alloc m c) x = load m x := by
  rw [load, alloc, List.getElem?_append_left hlt, load]

@[simp]
theorem load_alloc_length {c : Cell α} : load (alloc m c) m.length = some c := by
  rw [load, alloc, List.getElem?_concat_length]
  rfl

theorem setNext_eq_some {c : Cell α} (hload : load m x = some c) :
    ∃ m', setNext m x q = some m' ∧ m'.length = m.length ∧
      load m' x = some { c with next := q } ∧ ∀ y, x ≠ y → load m' y = load m y := by
  refine ⟨_, by rw [setNext, hload]; rfl, List.length_set, ?_, fun y hne => ?_⟩
  · rw [load, List.getElem?_set_self (lt_length_of_load hload)]
    rfl
  · rw [load, List.getElem?_set_ne hne, load]

/-! ## Segments -/

theorem Segment.congr (hs : Segment m p xs q) (h : ∀ c ∈ xs, load m' c.1 = load m c.1) :
    Segment m' p xs q := by
  induction xs generalizing p with
  | nil => exact hs
  | cons c xs ih =>
      obtain ⟨hp, next, hload, hrest⟩ := hs
      refine ⟨hp, next, ?_, ih hrest fun d hd => h d (List.mem_cons_of_mem _ hd)⟩
      rw [h c List.mem_cons_self]
      exact hload

theorem segment_append :
    Segment m p (xs ++ ys) q ↔ ∃ r, Segment m p xs r ∧ Segment m r ys q := by
  induction xs generalizing p with
  | nil => exact ⟨fun h => ⟨p, rfl, h⟩, fun ⟨r, hpr, h⟩ => (hpr : p = r) ▸ h⟩
  | cons c xs ih =>
      constructor
      · rintro ⟨hp, next, hload, hrest⟩
        obtain ⟨r, hxs, hys⟩ := ih.mp hrest
        exact ⟨r, ⟨hp, next, hload, hxs⟩, hys⟩
      · rintro ⟨r, ⟨hp, next, hload, hxs⟩, hys⟩
        exact ⟨hp, next, hload, ih.mpr ⟨r, hxs, hys⟩⟩

theorem Segment.head (hs : Segment m p xs none) : p = xs.head?.map Prod.fst := by
  cases xs with
  | nil => exact hs
  | cons c xs => exact hs.1

theorem Segment.mem_load (hs : Segment m p xs q) :
    ∀ c ∈ xs, ∃ next, load m c.1 = some ⟨c.2, next⟩ := by
  induction xs generalizing p with
  | nil => exact fun c hc => nomatch hc
  | cons c xs ih =>
      obtain ⟨hp, next, hload, hrest⟩ := hs
      exact List.forall_mem_cons.mpr ⟨⟨next, hload⟩, ih hrest⟩

/-- The cells up to a null pointer are determined by the first one. -/
theorem Segment.unique (hxs : Segment m p xs none) (hys : Segment m p ys none) : xs = ys := by
  induction xs generalizing p ys with
  | nil =>
      cases ys with
      | nil => rfl
      | cons d ys => exact absurd ((hxs : p = none).symm.trans hys.1) (fun h => nomatch h)
  | cons c xs ih =>
      obtain ⟨hp, next, hload, hrest⟩ := hxs
      cases ys with
      | nil => exact absurd (hp.symm.trans hys) (fun h => nomatch h)
      | cons d ys =>
          obtain ⟨hp', next', hload', hrest'⟩ := hys
          have hplace : c.1 = d.1 := Option.some.inj (hp.symm.trans hp')
          rw [← hplace, hload] at hload'
          obtain ⟨hvalue, hnext⟩ := Cell.mk.inj (Option.some.inj hload')
          rw [← hnext] at hrest'
          rw [ih hrest hrest', Prod.ext hplace hvalue]

/-- No cell comes twice before a null pointer. -/
theorem Segment.nodup (hs : Segment m p xs none) : (xs.map Prod.fst).Nodup := by
  induction xs generalizing p with
  | nil => exact List.nodup_nil
  | cons c xs ih =>
      have hwhole := hs
      obtain ⟨hp, next, hload, hrest⟩ := hs
      refine List.nodup_cons.mpr ⟨fun hagain => ?_, ih hrest⟩
      obtain ⟨d, hd, hplace⟩ := List.mem_map.mp hagain
      obtain ⟨before, behind, rfl⟩ := List.append_of_mem hd
      -- the list from the second time on would be the whole list
      obtain ⟨r, _, hsecond⟩ := segment_append.mp hrest
      have hfrom : Segment m p (d :: behind) none := by
        rw [hp, ← hplace, ← hsecond.1]
        exact hsecond
      have hlen := congrArg List.length (hwhole.unique hfrom)
      simp only [List.length_cons, List.length_append] at hlen
      omega

/-- There are no more cells than memory. -/
theorem Segment.length_le (hs : Segment m p xs none) : xs.length ≤ m.length := by
  have hsub : xs.map Prod.fst ⊆ List.range m.length := by
    intro x hx
    obtain ⟨c, hc, rfl⟩ := List.mem_map.mp hx
    obtain ⟨next, hload⟩ := hs.mem_load c hc
    exact List.mem_range.mpr (lt_length_of_load hload)
  simpa using (hs.nodup.subperm hsub).length_le

theorem Segment.read (hs : Segment m p xs none) {fuel : Nat} (hfuel : xs.length ≤ fuel) :
    read fuel m p = some (xs.map Prod.snd) := by
  induction xs generalizing p fuel with
  | nil =>
      rw [(hs : p = none)]
      cases fuel <;> rfl
  | cons c xs ih =>
      obtain ⟨hp, next, hload, hrest⟩ := hs
      obtain ⟨fuel, rfl⟩ := Nat.exists_eq_add_of_lt (Nat.lt_of_lt_of_le (Nat.succ_pos _) hfuel)
      rw [hp, Nat.zero_add, CellList.read, hload]
      simp only [Option.bind_eq_bind, Option.bind_some]
      rw [ih hrest (by rw [List.length_cons] at hfuel; omega)]
      rfl

/-- The last cell gets another pointer. -/
theorem Segment.relink (hs : Segment m p (xs ++ [(x, v)]) q)
    (hnodup : ((xs ++ [(x, v)]).map Prod.fst).Nodup) (r : Option Nat) :
    ∃ m', setNext m x r = some m' ∧ m'.length = m.length ∧ Segment m' p (xs ++ [(x, v)]) r ∧
      ∀ y, x ≠ y → load m' y = load m y := by
  obtain ⟨s, hxs, hx⟩ := segment_append.mp hs
  obtain ⟨hsx, next, hload, _⟩ := hx
  obtain ⟨m', hset, hlen, hself, hothers⟩ := setNext_eq_some (q := r) hload
  refine ⟨m', hset, hlen, segment_append.mpr ⟨s, hxs.congr fun c hc => hothers c.1 ?_, ?_⟩, hothers⟩
  · rw [List.map_append, List.nodup_append] at hnodup
    exact (hnodup.2.2 c.1 (List.mem_map_of_mem hc) x (by simp)).symm
  · exact ⟨hsx, r, hself, rfl⟩

end CellList
end Lib
end InventixDB
