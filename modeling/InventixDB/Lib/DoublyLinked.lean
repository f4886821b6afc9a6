import Mathlib.Data.List.Nodup

/-!
# DoublyLinked — a list threaded through `next` and `prev` pointers

The cells carry the pointers, and the list is its first cell.  A list of cells is in the pointers
when every cell's two pointers name its neighbours; a cell is then pushed, popped and taken out of
the middle by a few writes, which change no other order.
-/

namespace InventixDB
namespace Lib

/-- A list by its first cell, with the pointers of all cells. -/
structure Dll (α : Type*) where
  head : Option α
  next : α → Option α
  prev : α → Option α

namespace Dll

variable {α : Type*} [DecidableEq α]

/-! ## Writing pointers -/

/-- `if (x) x->next = v` -/
def setNext (d : Dll α) (x v : Option α) : Dll α :=
  match x with
  | none => d
  | some x => { d with next := Function.update d.next x v }

/-- `if (x) x->prev = v` -/
def setPrev (d : Dll α) (x v : Option α) : Dll α :=
  match x with
  | none => d
  | some x => { d with prev := Function.update d.prev x v }

def empty : Dll α where
  head := none
  next := fun _ => none
  prev := fun _ => none

/-- A cell that points nowhere. -/
def detach (d : Dll α) (x : α) : Dll α :=
  (d.setNext (some x) none).setPrev (some x) none

def pushFront (d : Dll α) (x : α) : Dll α :=
  { ((d.setNext (some x) d.head).setPrev (some x) none).setPrev d.head (some x) with
    head := some x }

/-- The first cell leaves with both pointers cleared. -/
def popFront (d : Dll α) (x : α) : Dll α :=
  let rest := { d with head := d.next x }
  (rest.setPrev rest.head none).detach x

def unlink (d : Dll α) (x : α) : Dll α :=
  let before := d.setNext (d.prev x) (d.next x)
  let after := before.setPrev (before.next x) (before.prev x)
  if after.head = some x then { after with head := after.next x } else after

section Fields

variable {d : Dll α} {x v : Option α} {y : α}

@[simp]
theorem setNext_head : (d.setNext x v).head = d.head := by
  cases x <;> rfl

@[simp]
theorem setPrev_head : (d.setPrev x v).head = d.head := by
  cases x <;> rfl

@[simp]
theorem setNext_prev : (d.setNext x v).prev = d.prev := by
  cases x <;> rfl

@[simp]
theorem setPrev_next : (d.setPrev x v).next = d.next := by
  cases x <;> rfl

theorem setNext_next_of_ne (h : x ≠ some y) : (d.setNext x v).next y = d.next y := by
  cases x with
  | none => rfl
  | some x => exact Function.update_of_ne (fun heq => h (congrArg some heq.symm)) v d.next

theorem setPrev_prev_of_ne (h : x ≠ some y) : (d.setPrev x v).prev y = d.prev y := by
  cases x with
  | none => rfl
  | some x => exact Function.update_of_ne (fun heq => h (congrArg some heq.symm)) v d.prev

theorem setNext_next_self : (d.setNext (some y) v).next y = v := by
  simp [setNext]

theorem setPrev_prev_self : (d.setPrev (some y) v).prev y = v := by
  simp [setPrev]

end Fields

/-! ## Segments -/

/-- The cells follow one another in the pointers, from `p` before the first to `q` behind the
last. -/
def Seg (d : Dll α) : Option α → List α → Option α → Prop
  | _, [], _ => True
  | p, x :: xs, q => d.prev x = p ∧ d.next x = xs.head?.or q ∧ Seg d (some x) xs q

variable {d d' : Dll α} {p q v : Option α} {x : α} {xs ys : List α}

omit [DecidableEq α] in
theorem Seg.congr (hs : Seg d p xs q)
    (hsame : ∀ x ∈ xs, d'.next x = d.next x ∧ d'.prev x = d.prev x) : Seg d' p xs q := by
  induction xs generalizing p with
  | nil => trivial
  | cons x xs ih =>
      obtain ⟨hprev, hnext, hrest⟩ := hs
      obtain ⟨hnext', hprev'⟩ := hsame x List.mem_cons_self
      refine ⟨hprev'.trans hprev, hnext'.trans hnext, ih hrest fun y hy => ?_⟩
      exact hsame y (List.mem_cons_of_mem _ hy)

omit [DecidableEq α] in
/-- A segment of two parts is cut at the last cell of the first and the first of the second. -/
theorem seg_append :
    Seg d p (xs ++ ys) q ↔
      Seg d p xs (ys.head?.or q) ∧ Seg d (xs.getLast?.or p) ys q := by
  induction xs generalizing p with
  | nil => simp [Seg]
  | cons x xs ih =>
      have hlast : (x :: xs).getLast?.or p = xs.getLast?.or (some x) := by
        cases xs with
        | nil => rfl
        | cons y ys =>
            rw [List.getLast?_cons_cons, List.getLast?_eq_getLast_of_ne_nil (List.cons_ne_nil y ys)]
            rfl
      rw [List.cons_append, Seg, Seg, ih, hlast, List.head?_append, Option.or_assoc]
      exact ⟨fun ⟨h1, h2, h3, h4⟩ => ⟨⟨h1, h2, h3⟩, h4⟩, fun ⟨⟨h1, h2, h3⟩, h4⟩ => ⟨h1, h2, h3, h4⟩⟩

/-- The first cell's `prev` rewritten. -/
theorem Seg.setPrev (hs : Seg d p xs q) (hnd : xs.Nodup) : Seg (d.setPrev xs.head? v) v xs q := by
  cases xs with
  | nil => trivial
  | cons x xs =>
      obtain ⟨-, hnext, hrest⟩ := hs
      obtain ⟨hx, -⟩ := List.nodup_cons.mp hnd
      refine ⟨setPrev_prev_self, by rw [setPrev_next]; exact hnext, hrest.congr fun y hy => ?_⟩
      have hne : (x :: xs).head? ≠ some y := by
        rintro heq
        cases heq
        exact hx hy
      exact ⟨by rw [setPrev_next], setPrev_prev_of_ne hne⟩

/-- The last cell's `next` rewritten. -/
theorem Seg.setNext (hs : Seg d p xs q) (hnd : xs.Nodup) :
    Seg (d.setNext xs.getLast? v) p xs v := by
  rcases List.eq_nil_or_concat xs with rfl | ⟨ys, y, rfl⟩
  · trivial
  rw [List.concat_eq_append] at hs hnd ⊢
  rw [List.getLast?_concat]
  obtain ⟨hfront, hlast⟩ := seg_append.mp hs
  obtain ⟨hys, -, hdisj⟩ := List.nodup_append'.mp hnd
  refine seg_append.mpr ⟨hfront.congr fun x hx => ?_, ?_⟩
  · have hne : some y ≠ some x := by
      rintro heq
      cases heq
      exact hdisj hx List.mem_cons_self
    exact ⟨setNext_next_of_ne hne, by rw [setNext_prev]⟩
  · refine ⟨?_, setNext_next_self, trivial⟩
    rw [setNext_prev]
    exact hlast.1

/-! ## The cells of a list -/

/-- The list runs over these cells, each once. -/
structure Lists (d : Dll α) (xs : List α) : Prop where
  head : d.head = xs.head?
  seg : Seg d none xs none
  nodup : xs.Nodup

omit [DecidableEq α] in
theorem lists_empty : Lists (empty : Dll α) [] :=
  ⟨rfl, trivial, List.nodup_nil⟩

theorem Lists.detach (hl : d.Lists xs) (hx : x ∉ xs) : (d.detach x).Lists xs := by
  refine ⟨?_, hl.seg.congr fun y hy => ?_, hl.nodup⟩
  · rw [Dll.detach, setPrev_head, setNext_head]
    exact hl.head
  · have hne : some x ≠ some y := by
      rintro heq
      cases heq
      exact hx hy
    rw [Dll.detach, setPrev_next, setNext_next_of_ne hne, setPrev_prev_of_ne hne, setNext_prev]
    exact ⟨rfl, rfl⟩

theorem Lists.pushFront (hl : d.Lists xs) (hx : x ∉ xs) : (d.pushFront x).Lists (x :: xs) := by
  have hne : ∀ y ∈ xs, some x ≠ some y := by
    rintro y hy heq
    cases heq
    exact hx hy
  have hhead : d.head ≠ some x := by
    rw [hl.head]
    exact fun heq => hx (List.mem_of_mem_head? heq)
  refine ⟨rfl, ⟨?_, ?_, ?_⟩, List.nodup_cons.mpr ⟨hx, hl.nodup⟩⟩
  · change ((Dll.setPrev _ (some x) none).setPrev d.head (some x)).prev x = none
    rw [setPrev_prev_of_ne hhead, setPrev_prev_self]
  · change ((Dll.setPrev _ (some x) none).setPrev d.head (some x)).next x = xs.head?.or none
    rw [setPrev_next, setPrev_next, setNext_next_self, hl.head, Option.or_none]
  · have hfront : Seg ((d.setNext (some x) d.head).setPrev (some x) none) none xs none := by
      refine hl.seg.congr fun y hy => ?_
      rw [setPrev_next, setNext_next_of_ne (hne y hy), setPrev_prev_of_ne (hne y hy), setNext_prev]
      exact ⟨rfl, rfl⟩
    have hrest := @Seg.setPrev _ _ _ _ _ (some x) _ hfront hl.nodup
    rw [← hl.head] at hrest
    exact hrest.congr fun y hy => ⟨rfl, rfl⟩

theorem Lists.popFront (hl : d.Lists (x :: xs)) : (d.popFront x).Lists xs := by
  obtain ⟨-, hnext, hrest⟩ := hl.seg
  obtain ⟨hx, hnd⟩ := List.nodup_cons.mp hl.nodup
  rw [Option.or_none] at hnext
  refine Lists.detach ⟨?_, ?_, hnd⟩ hx
  · rw [setPrev_head]
    exact hnext
  · dsimp only
    rw [hnext]
    refine @Seg.setPrev _ _ _ (some x) _ none _ (hrest.congr fun y hy => ⟨rfl, rfl⟩) hnd

omit [DecidableEq α] in
/-- The neighbours of a cell are in its pointers. -/
theorem Lists.neighbours (hl : d.Lists (xs ++ x :: ys)) :
    d.prev x = xs.getLast? ∧ d.next x = ys.head? := by
  obtain ⟨-, hprev, hnext, -⟩ := seg_append.mp hl.seg
  rw [Option.or_none] at hprev hnext
  exact ⟨hprev, hnext⟩

theorem Lists.unlink (hl : d.Lists (xs ++ x :: ys)) : (d.unlink x).Lists (xs ++ ys) := by
  obtain ⟨hprev, hnext⟩ := hl.neighbours
  obtain ⟨hfront, -, -, hback⟩ := seg_append.mp hl.seg
  obtain ⟨hndx, hndy, hdisj⟩ := List.nodup_append'.mp hl.nodup
  obtain ⟨hxy, hndy⟩ := List.nodup_cons.mp hndy
  have hxx : x ∉ xs := fun hmem => hdisj hmem List.mem_cons_self
  have hlast : xs.getLast? ≠ some x := fun heq => hxx (List.mem_of_mem_getLast? heq)
  have hdisj' : ∀ y ∈ xs, y ∉ ys := fun y hy hmem => hdisj hy (List.mem_cons_of_mem _ hmem)
  let joined := (d.setNext xs.getLast? ys.head?).setPrev ys.head? xs.getLast?
  have hjoined : d.unlink x =
      if d.head = some x then { joined with head := ys.head? } else joined := by
    have hbefore : (d.setNext xs.getLast? ys.head?).next x = ys.head? := by
      rw [setNext_next_of_ne hlast, hnext]
    simp only [Dll.unlink, hprev, hnext, setNext_prev, hbefore, setPrev_head, setNext_head,
      setPrev_next, joined]
  -- The writes touch the last cell before and the first one behind.
  have hseg : Seg joined none (xs ++ ys) none := by
    refine seg_append.mpr ⟨?_, ?_⟩
    · rw [Option.or_none]
      refine (@Seg.setNext _ _ _ _ _ ys.head? _ hfront hndx).congr fun y hy => ?_
      have hne : ys.head? ≠ some y := fun heq => hdisj' y hy (List.mem_of_mem_head? heq)
      exact ⟨by rw [setPrev_next], setPrev_prev_of_ne hne⟩
    · rw [Option.or_none]
      refine Seg.setPrev (p := some x) (hback.congr fun y hy => ?_) hndy
      have hne : xs.getLast? ≠ some y := fun heq => hdisj' y (List.mem_of_mem_getLast? heq) hy
      exact ⟨setNext_next_of_ne hne, by rw [setNext_prev]⟩
  have hnodup : (xs ++ ys).Nodup :=
    hl.nodup.sublist (List.Sublist.append_left (List.sublist_cons_self x ys) xs)
  have hhead := hl.head
  rw [List.head?_append] at hhead
  rw [hjoined]
  split
  · rename_i hfirst
    refine ⟨?_, hseg.congr fun y hy => ⟨rfl, rfl⟩, hnodup⟩
    cases xs with
    | nil => rfl
    | cons z zs =>
        rw [hhead] at hfirst
        cases hfirst
        exact absurd List.mem_cons_self hxx
  · rename_i hfirst
    refine ⟨?_, hseg, hnodup⟩
    cases xs with
    | nil => exact absurd hhead hfirst
    | cons z zs =>
        have hsame : joined.head = d.head := by rw [setPrev_head, setNext_head]
        rw [hsame, hhead]
        rfl

end Dll
end Lib
end InventixDB
