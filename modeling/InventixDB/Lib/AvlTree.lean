import Mathlib.Data.List.Basic

/-!
# AvlTree — a balanced search tree as a sorted list

Rotations move subtrees around and leave the entries in order, so a tree is used through
`toList`: inserting into it is inserting into the sorted list, and finding a key is looking it up
there.
-/

namespace InventixDB
namespace Lib

/-! ## Sorted association lists -/

namespace SortedList

variable {κ α : Type*} [Ord κ]

/-- Insert an entry before the first greater key, or in place of an entry with its key. -/
def insert (key : κ) (value : α) : List (κ × α) → List (κ × α)
  | [] => [(key, value)]
  | (k, v) :: rest =>
      match compare key k with
      | .lt => (key, value) :: (k, v) :: rest
      | .eq => (k, value) :: rest
      | .gt => (k, v) :: insert key value rest

/-- The value of the first entry with the key. -/
def lookup (key : κ) : List (κ × α) → Option α
  | [] => none
  | (k, v) :: rest => if compare key k = .eq then some v else lookup key rest

/-- Keys grow. -/
def Sorted (l : List (κ × α)) : Prop :=
  l.Pairwise fun a b => compare a.1 b.1 = .lt

variable {key k : κ} {value v : α} {l rest : List (κ × α)}

theorem lookup_append (key : κ) (l rest : List (κ × α)) :
    lookup key (l ++ rest) = (lookup key l).or (lookup key rest) := by
  induction l with
  | nil => rfl
  | cons a l ih =>
      obtain ⟨k, v⟩ := a
      rw [List.cons_append, lookup, lookup, ih]
      split <;> rfl

theorem lookup_eq_none (h : ∀ a ∈ l, compare key a.1 ≠ .eq) : lookup key l = none := by
  induction l with
  | nil => rfl
  | cons a l ih =>
      rw [lookup, if_neg (h a List.mem_cons_self)]
      exact ih fun b hb => h b (List.mem_cons_of_mem a hb)

/-- A smaller key goes in front of the entry. -/
theorem insert_append_of_lt (h : compare key k = .lt) :
    insert key value (l ++ (k, v) :: rest) = insert key value l ++ (k, v) :: rest := by
  induction l with
  | nil =>
      rw [List.nil_append, insert.eq_2, h]
      rfl
  | cons a l ih =>
      obtain ⟨k', v'⟩ := a
      rw [List.cons_append, insert, insert]
      cases compare key k' with
      | lt => rfl
      | eq => rfl
      | gt => rw [ih, List.cons_append]

/-- Smaller entries are passed. -/
theorem insert_append_of_gt (h : ∀ a ∈ l, compare key a.1 = .gt) :
    insert key value (l ++ rest) = l ++ insert key value rest := by
  induction l with
  | nil => rfl
  | cons a l ih =>
      obtain ⟨k', v'⟩ := a
      rw [List.cons_append, insert, h _ List.mem_cons_self, List.cons_append,
        ih fun b hb => h b (List.mem_cons_of_mem _ hb)]

theorem mem_insert {a : κ × α} (h : a ∈ insert key value l) :
    a.1 = key ∨ ∃ b ∈ l, b.1 = a.1 := by
  induction l with
  | nil =>
      rw [insert, List.mem_singleton] at h
      exact Or.inl (by rw [h])
  | cons b l ih =>
      obtain ⟨k, v⟩ := b
      rw [insert] at h
      cases hk : compare key k with
      | lt =>
          rw [hk] at h
          rcases List.mem_cons.mp h with rfl | h
          · exact Or.inl rfl
          · exact Or.inr ⟨a, h, rfl⟩
      | eq =>
          rw [hk] at h
          rcases List.mem_cons.mp h with rfl | h
          · exact Or.inr ⟨(k, v), List.mem_cons_self, rfl⟩
          · exact Or.inr ⟨a, List.mem_cons_of_mem _ h, rfl⟩
      | gt =>
          rw [hk] at h
          rcases List.mem_cons.mp h with rfl | h
          · exact Or.inr ⟨(k, v), List.mem_cons_self, rfl⟩
          · rcases ih h with hkey | ⟨b, hb, hba⟩
            · exact Or.inl hkey
            · exact Or.inr ⟨b, List.mem_cons_of_mem _ hb, hba⟩

variable [Std.TransOrd κ] [Std.LawfulEqOrd κ]

omit [Std.TransOrd κ] in
theorem lookup_cons (key k : κ) (v : α) (rest : List (κ × α)) [DecidableEq κ] :
    lookup key ((k, v) :: rest) = if key = k then some v else lookup key rest := by
  rw [lookup]
  by_cases hk : key = k
  · rw [if_pos hk, if_pos (Std.LawfulEqOrd.compare_eq_iff_eq.mpr hk)]
  · rw [if_neg hk, if_neg (fun h => hk (Std.LawfulEqOrd.compare_eq_iff_eq.mp h))]

omit [Std.TransOrd κ] in
theorem mem_of_lookup (h : lookup key l = some value) : (key, value) ∈ l := by
  induction l with
  | nil => cases h
  | cons a l ih =>
      obtain ⟨k, v⟩ := a
      rw [lookup] at h
      split at h
      · next hk =>
          rw [Std.LawfulEqOrd.compare_eq_iff_eq.mp hk, Option.some_inj.mp h]
          exact List.mem_cons_self
      · exact List.mem_cons_of_mem _ (ih h)

omit [Std.TransOrd κ] in
/-- The entry inserted last is the one that is found. -/
theorem lookup_insert [DecidableEq κ] (key k : κ) (value : α) (l : List (κ × α)) :
    lookup k (insert key value l) = if k = key then some value else lookup k l := by
  induction l with
  | nil => rw [insert, lookup_cons]
  | cons a l ih =>
      obtain ⟨k', v'⟩ := a
      rw [insert]
      cases hk : compare key k' with
      | lt =>
          dsimp only
          rw [lookup_cons]
      | eq =>
          obtain rfl := Std.LawfulEqOrd.compare_eq_iff_eq.mp hk
          dsimp only
          rw [lookup_cons, lookup_cons]
          by_cases hkk : k = key
          · rw [if_pos hkk, if_pos hkk]
          · rw [if_neg hkk, if_neg hkk, if_neg hkk]
      | gt =>
          dsimp only
          rw [lookup_cons, lookup_cons, ih]
          by_cases hkk : k = key
          · have hne : k ≠ k' := by
              rintro rfl
              rw [hkk, Std.LawfulEqOrd.compare_eq_iff_eq.mpr rfl] at hk
              cases hk
            rw [if_neg hne, if_pos hkk, if_pos hkk]
          · rw [if_neg hkk, if_neg hkk]

omit [Std.LawfulEqOrd κ] in
theorem Sorted.insert (h : Sorted l) (key : κ) (value : α) : Sorted (insert key value l) := by
  induction l with
  | nil => exact List.pairwise_singleton _ _
  | cons a l ih =>
      obtain ⟨k, v⟩ := a
      obtain ⟨hfirst, hrest⟩ := List.pairwise_cons.mp h
      rw [SortedList.insert]
      cases hk : compare key k with
      | lt =>
          refine List.pairwise_cons.mpr ⟨fun b hb => ?_, h⟩
          rcases List.mem_cons.mp hb with rfl | hb
          · exact hk
          · exact Std.TransCmp.lt_trans hk (hfirst b hb)
      | eq => exact List.pairwise_cons.mpr ⟨hfirst, hrest⟩
      | gt =>
          refine List.pairwise_cons.mpr ⟨fun b hb => ?_, ih hrest⟩
          rcases mem_insert hb with hkey | ⟨c, hc, hcb⟩
          · rw [hkey]
            exact Std.OrientedCmp.lt_of_gt hk
          · rw [← hcb]
            exact hfirst c hc

end SortedList

/-! ## Trees -/

inductive AvlTree (κ α : Type*)
  | nil
  | node (left : AvlTree κ α) (key : κ) (value : α) (right : AvlTree κ α) (height : Nat)

namespace AvlTree

variable {κ α : Type*}

def avlHeight : AvlTree κ α → Nat
  | nil => 0
  | node _ _ _ _ height => height

/-- A node above two subtrees, with the height they give it. -/
def join (left : AvlTree κ α) (key : κ) (value : α) (right : AvlTree κ α) : AvlTree κ α :=
  node left key value right (1 + max left.avlHeight right.avlHeight)

/-- Without a left child there is nothing to rotate. -/
def rotateRight : AvlTree κ α → AvlTree κ α
  | node (node a k v b _) key value right _ => join a k v (join b key value right)
  | t => t

def rotateLeft : AvlTree κ α → AvlTree κ α
  | node left key value (node b k v c _) _ => join (join left key value b) k v c
  | t => t

variable [Ord κ]

/-- How a key compares with the key at the root. -/
def rootCompare (key : κ) : AvlTree κ α → Option Ordering
  | nil => none
  | node _ k _ _ _ => some (compare key k)

/-- Restore the balance after `key` went into one of the subtrees. -/
def rebalance (key : κ) (left : AvlTree κ α) (k : κ) (v : α) (right : AvlTree κ α) :
    AvlTree κ α :=
  let balance : Int := left.avlHeight - right.avlHeight
  if balance > 1 ∧ left.rootCompare key = some .lt then rotateRight (join left k v right)
  else if balance < -1 ∧ right.rootCompare key = some .gt then rotateLeft (join left k v right)
  else if balance > 1 ∧ left.rootCompare key = some .gt then
    rotateRight (join (rotateLeft left) k v right)
  else if balance < -1 ∧ right.rootCompare key = some .lt then
    rotateLeft (join left k v (rotateRight right))
  else join left k v right

def insert (key : κ) (value : α) : AvlTree κ α → AvlTree κ α
  | nil => node nil key value nil 1
  | node left k v right height =>
      match compare key k with
      | .lt => rebalance key (insert key value left) k v right
      | .gt => rebalance key left k v (insert key value right)
      | .eq => node left k value right height

def find (key : κ) : AvlTree κ α → Option α
  | nil => none
  | node left k v right _ =>
      match compare key k with
      | .lt => find key left
      | .gt => find key right
      | .eq => some v

/-- The entries in order. -/
def toList : AvlTree κ α → List (κ × α)
  | nil => []
  | node left k v right _ => left.toList ++ (k, v) :: right.toList

/-! ## The entries in order -/

omit [Ord κ] in
@[simp]
theorem toList_join (left right : AvlTree κ α) (k : κ) (v : α) :
    (join left k v right).toList = left.toList ++ (k, v) :: right.toList := rfl

omit [Ord κ] in
@[simp]
theorem toList_rotateRight (t : AvlTree κ α) : t.rotateRight.toList = t.toList := by
  unfold rotateRight
  split
  · simp [toList]
  · rfl

omit [Ord κ] in
@[simp]
theorem toList_rotateLeft (t : AvlTree κ α) : t.rotateLeft.toList = t.toList := by
  unfold rotateLeft
  split
  · simp [toList]
  · rfl

@[simp]
theorem toList_rebalance (key : κ) (left right : AvlTree κ α) (k : κ) (v : α) :
    (rebalance key left k v right).toList = left.toList ++ (k, v) :: right.toList := by
  rw [rebalance]
  split_ifs <;> simp

variable [Std.TransOrd κ] [Std.LawfulEqOrd κ] {t : AvlTree κ α} {key : κ} {value : α}

/-- Inserting keeps the order. -/
theorem toList_insert (h : SortedList.Sorted t.toList) (key : κ) (value : α) :
    (t.insert key value).toList = SortedList.insert key value t.toList := by
  induction t with
  | nil => rfl
  | node left k v right height ihl ihr =>
      obtain ⟨hleft, hroot, hbelow⟩ := List.pairwise_append.mp h
      obtain ⟨-, hright⟩ := List.pairwise_cons.mp hroot
      have hless : ∀ a ∈ left.toList, compare a.1 k = .lt :=
        fun a ha => hbelow a ha (k, v) List.mem_cons_self
      rw [insert, toList]
      cases hk : compare key k with
      | lt =>
          dsimp only
          rw [toList_rebalance, ihl hleft, SortedList.insert_append_of_lt hk]
      | eq =>
          have hpass : ∀ a ∈ left.toList, compare key a.1 = .gt := by
            intro a ha
            rw [Std.LawfulEqOrd.compare_eq_iff_eq.mp hk]
            exact Std.OrientedCmp.gt_of_lt (hless a ha)
          rw [SortedList.insert_append_of_gt hpass, SortedList.insert, hk]
          rfl
      | gt =>
          have hpass : ∀ a ∈ left.toList, compare key a.1 = .gt := by
            intro a ha
            exact Std.OrientedCmp.gt_of_lt
              (Std.TransCmp.lt_trans (hless a ha) (Std.OrientedCmp.lt_of_gt hk))
          dsimp only
          rw [toList_rebalance, ihr hright, SortedList.insert_append_of_gt hpass,
            SortedList.insert, hk]

theorem find_eq_lookup (h : SortedList.Sorted t.toList) (key : κ) :
    t.find key = SortedList.lookup key t.toList := by
  induction t with
  | nil => rfl
  | node left k v right height ihl ihr =>
      obtain ⟨hleft, hroot, hbelow⟩ := List.pairwise_append.mp h
      obtain ⟨hmore, hright⟩ := List.pairwise_cons.mp hroot
      have hless : ∀ a ∈ left.toList, compare a.1 k = .lt :=
        fun a ha => hbelow a ha (k, v) List.mem_cons_self
      rw [find, toList, SortedList.lookup_append, SortedList.lookup]
      cases hk : compare key k with
      | lt =>
          have hnone : SortedList.lookup key right.toList = none := by
            refine SortedList.lookup_eq_none fun a ha heq => ?_
            have hlt := Std.TransCmp.lt_trans hk (hmore a ha)
            rw [heq] at hlt
            cases hlt
          rw [if_neg (by decide), hnone, Option.or_none]
          exact ihl hleft
      | eq =>
          have hnone : SortedList.lookup key left.toList = none := by
            refine SortedList.lookup_eq_none fun a ha heq => ?_
            have hlt := hless a ha
            rw [← Std.LawfulEqOrd.compare_eq_iff_eq.mp heq,
              Std.LawfulEqOrd.compare_eq_iff_eq.mp hk,
              Std.LawfulEqOrd.compare_eq_iff_eq.mpr rfl] at hlt
            cases hlt
          rw [if_pos rfl, hnone, Option.none_or]
      | gt =>
          have hnone : SortedList.lookup key left.toList = none := by
            refine SortedList.lookup_eq_none fun a ha heq => ?_
            have hlt := Std.TransCmp.lt_trans (hless a ha) (Std.OrientedCmp.lt_of_gt hk)
            rw [← Std.LawfulEqOrd.compare_eq_iff_eq.mp heq,
              Std.LawfulEqOrd.compare_eq_iff_eq.mpr rfl] at hlt
            cases hlt
          rw [if_neg (by decide), hnone, Option.none_or]
          exact ihr hright

/-! ## Balance -/

omit [Std.TransOrd κ] [Std.LawfulEqOrd κ]

section Levels

omit [Ord κ]

/-- The levels of a tree, counted. -/
def levels : AvlTree κ α → Nat
  | nil => 0
  | node left _ _ right _ => 1 + max left.levels right.levels

/-- At every node the stored height is right and the subtrees differ by at most one level. -/
def Balanced : AvlTree κ α → Prop
  | nil => True
  | node left _ _ right height =>
      left.Balanced ∧ right.Balanced ∧ height = 1 + max left.levels right.levels ∧
        left.levels ≤ right.levels + 1 ∧ right.levels ≤ left.levels + 1

variable {left right : AvlTree κ α} {k : κ} {v : α}

@[simp]
theorem levels_join : (join left k v right).levels = 1 + max left.levels right.levels := rfl

theorem Balanced.avlHeight_eq {t : AvlTree κ α} (h : t.Balanced) : t.avlHeight = t.levels := by
  cases t with
  | nil => rfl
  | node left k v right height => exact h.2.2.1

theorem Balanced.join (hleft : left.Balanced) (hright : right.Balanced)
    (hl : left.levels ≤ right.levels + 1) (hr : right.levels ≤ left.levels + 1) :
    (join left k v right).Balanced := by
  refine ⟨hleft, hright, ?_, hl, hr⟩
  rw [hleft.avlHeight_eq, hright.avlHeight_eq]

end Levels

/-- The tree is a new leaf, or deeper on the side of `key`. -/
inductive Leans (key : κ) : AvlTree κ α → Prop
  | leaf {k : κ} {v : α} {height : Nat} : Leans key (node nil k v nil height)
  | left {a b : AvlTree κ α} {k : κ} {v : α} {height : Nat} (hk : compare key k = .lt)
      (hdeep : a.levels = b.levels + 1) : Leans key (node a k v b height)
  | right {a b : AvlTree κ α} {k : κ} {v : α} {height : Nat} (hk : compare key k = .gt)
      (hdeep : b.levels = a.levels + 1) : Leans key (node a k v b height)

section Rebalance

variable {left right : AvlTree κ α} {k : κ} {v : α}

theorem rebalance_eq_join (hleft : left.Balanced) (hright : right.Balanced)
    (hl : left.levels ≤ right.levels + 1) (hr : right.levels ≤ left.levels + 1) :
    rebalance key left k v right = join left k v right := by
  have hlow : ¬ (left.avlHeight : Int) - right.avlHeight > 1 := by
    rw [hleft.avlHeight_eq, hright.avlHeight_eq]
    omega
  have hhigh : ¬ (left.avlHeight : Int) - right.avlHeight < -1 := by
    rw [hleft.avlHeight_eq, hright.avlHeight_eq]
    omega
  rw [rebalance, if_neg fun h => hlow h.1, if_neg fun h => hhigh h.1, if_neg fun h => hlow h.1,
    if_neg fun h => hhigh h.1]

/-- The left subtree has grown two levels deeper than the right one: one rotation if `key` went
to its left, two if it went to its right. -/
theorem rebalance_left (hleft : left.Balanced) (hright : right.Balanced) (hleans : left.Leans key)
    (hdeep : left.levels = right.levels + 2) :
    (rebalance key left k v right).Balanced ∧
      (rebalance key left k v right).levels = right.levels + 2 := by
  have hlow : (left.avlHeight : Int) - right.avlHeight > 1 := by
    rw [hleft.avlHeight_eq, hright.avlHeight_eq]
    omega
  have hhigh : ¬ (left.avlHeight : Int) - right.avlHeight < -1 := by omega
  cases hleans with
  | leaf =>
      rw [levels, levels] at hdeep
      omega
  | @left a b k' v' height hk hab =>
      obtain ⟨ha, hb, -, -, -⟩ := hleft
      rw [levels] at hdeep
      have hrotate : rebalance key (node a k' v' b height) k v right =
          join a k' v' (join b k v right) := by
        rw [rebalance, if_pos ⟨hlow, congrArg some hk⟩]
        rfl
      have hinner : (join b k v right).Balanced := hb.join hright (by omega) (by omega)
      rw [hrotate]
      refine ⟨ha.join hinner ?_ ?_, ?_⟩
      all_goals
        simp only [levels_join]
        omega
  | @right a b k' v' height hk hab =>
      obtain ⟨ha, hb, -, -, -⟩ := hleft
      rw [levels] at hdeep
      cases b with
      | nil =>
          rw [levels] at hab
          omega
      | node c kb vb d heightb =>
          obtain ⟨hc, hd, -, hcd, hdc⟩ := hb
          rw [levels] at hab hdeep
          have hrotate : rebalance key (node a k' v' (node c kb vb d heightb) height) k v right =
              join (join a k' v' c) kb vb (join d k v right) := by
            have hnot : (node a k' v' (node c kb vb d heightb) height).rootCompare key ≠
                some .lt := by
              rw [rootCompare, hk]
              decide
            rw [rebalance, if_neg fun h => hnot h.2, if_neg fun h => hhigh h.1,
              if_pos ⟨hlow, congrArg some hk⟩]
            rfl
          have hfirst : (join a k' v' c).Balanced := ha.join hc (by omega) (by omega)
          have hsecond : (join d k v right).Balanced := hd.join hright (by omega) (by omega)
          rw [hrotate]
          refine ⟨hfirst.join hsecond ?_ ?_, ?_⟩
          all_goals
            simp only [levels_join]
            omega

/-- The mirror image. -/
theorem rebalance_right (hleft : left.Balanced) (hright : right.Balanced)
    (hleans : right.Leans key) (hdeep : right.levels = left.levels + 2) :
    (rebalance key left k v right).Balanced ∧
      (rebalance key left k v right).levels = left.levels + 2 := by
  have hhigh : (left.avlHeight : Int) - right.avlHeight < -1 := by
    rw [hleft.avlHeight_eq, hright.avlHeight_eq]
    omega
  have hlow : ¬ (left.avlHeight : Int) - right.avlHeight > 1 := by omega
  cases hleans with
  | leaf =>
      rw [levels, levels] at hdeep
      omega
  | @right a b k' v' height hk hab =>
      obtain ⟨ha, hb, -, -, -⟩ := hright
      rw [levels] at hdeep
      have hrotate : rebalance key left k v (node a k' v' b height) =
          join (join left k v a) k' v' b := by
        rw [rebalance, if_neg fun h => hlow h.1, if_pos ⟨hhigh, congrArg some hk⟩]
        rfl
      have hinner : (join left k v a).Balanced := hleft.join ha (by omega) (by omega)
      rw [hrotate]
      refine ⟨hinner.join hb ?_ ?_, ?_⟩
      all_goals
        simp only [levels_join]
        omega
  | @left a b k' v' height hk hab =>
      obtain ⟨ha, hb, -, -, -⟩ := hright
      rw [levels] at hdeep
      cases a with
      | nil =>
          rw [levels] at hab
          omega
      | node c ka va d heighta =>
          obtain ⟨hc, hd, -, hcd, hdc⟩ := ha
          rw [levels] at hab hdeep
          have hrotate : rebalance key left k v (node (node c ka va d heighta) k' v' b height) =
              join (join left k v c) ka va (join d k' v' b) := by
            have hnot : (node (node c ka va d heighta) k' v' b height).rootCompare key ≠
                some .gt := by
              rw [rootCompare, hk]
              decide
            rw [rebalance, if_neg fun h => hlow h.1, if_neg fun h => hnot h.2,
              if_neg fun h => hlow h.1, if_pos ⟨hhigh, congrArg some hk⟩]
            rfl
          have hfirst : (join left k v c).Balanced := hleft.join hc (by omega) (by omega)
          have hsecond : (join d k' v' b).Balanced := hd.join hb (by omega) (by omega)
          rw [hrotate]
          refine ⟨hfirst.join hsecond ?_ ?_, ?_⟩
          all_goals
            simp only [levels_join]
            omega

end Rebalance

/-- What an insertion makes of a tree with `n` levels: it may be one level deeper, and then on
the side of the key. -/
structure Grown (key : κ) (n : Nat) (t : AvlTree κ α) : Prop where
  balanced : t.Balanced
  levels_eq : t.levels = n ∨ t.levels = n + 1 ∧ t.Leans key

theorem Balanced.grown (h : t.Balanced) (key : κ) (value : α) :
    (t.insert key value).Grown key t.levels := by
  induction t with
  | nil =>
      refine ⟨⟨trivial, trivial, rfl, Nat.le_succ _, Nat.le_succ _⟩, Or.inr ⟨rfl, ?_⟩⟩
      exact Leans.leaf
  | node left k v right height ihl ihr =>
      obtain ⟨hleft, hright, hheight, hlr, hrl⟩ := h
      rw [insert]
      cases hk : compare key k with
      | eq => exact ⟨⟨hleft, hright, hheight, hlr, hrl⟩, Or.inl rfl⟩
      | lt =>
          obtain ⟨hbal, hsize⟩ := ihl hleft
          dsimp only
          generalize left.insert key value = left' at hbal hsize
          by_cases hdeep : left'.levels = right.levels + 2
          · obtain ⟨hgrown, hleans⟩ := hsize.resolve_left (by omega)
            obtain ⟨hbalanced, hlevels⟩ := rebalance_left (k := k) (v := v) hbal hright hleans hdeep
            refine ⟨hbalanced, Or.inl ?_⟩
            rw [hlevels, levels]
            omega
          · rw [rebalance_eq_join hbal hright (by omega) (by omega)]
            refine ⟨hbal.join hright (by omega) (by omega), ?_⟩
            rw [levels_join, levels]
            by_cases hmore : left'.levels = right.levels + 1 ∧ left.levels = right.levels
            · exact Or.inr ⟨by omega, Leans.left hk hmore.1⟩
            · exact Or.inl (by omega)
      | gt =>
          obtain ⟨hbal, hsize⟩ := ihr hright
          dsimp only
          generalize right.insert key value = right' at hbal hsize
          by_cases hdeep : right'.levels = left.levels + 2
          · obtain ⟨hgrown, hleans⟩ := hsize.resolve_left (by omega)
            obtain ⟨hbalanced, hlevels⟩ :=
              rebalance_right (k := k) (v := v) hleft hbal hleans hdeep
            refine ⟨hbalanced, Or.inl ?_⟩
            rw [hlevels, levels]
            omega
          · rw [rebalance_eq_join hleft hbal (by omega) (by omega)]
            refine ⟨hleft.join hbal (by omega) (by omega), ?_⟩
            rw [levels_join, levels]
            by_cases hmore : right'.levels = left.levels + 1 ∧ right.levels = left.levels
            · exact Or.inr ⟨by omega, Leans.right hk hmore.1⟩
            · exact Or.inl (by omega)

/-- Inserting keeps the balance. -/
theorem Balanced.insert (h : t.Balanced) (key : κ) (value : α) : (t.insert key value).Balanced :=
  (h.grown key value).balanced

end AvlTree
end Lib
end InventixDB
