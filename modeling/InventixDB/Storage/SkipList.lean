import InventixDB.Lib.LinkedChain
import InventixDB.Storage.IndexScan

/-!
# SkipList — the pointers behind a secondary index

`Index` has the bottom level of a skip list as a list.  Here the nodes have addresses, each with
a `forward` pointer for every level it was drawn into, and a search descends from the highest
level.  Reading a pointer a node does not have, or following one that leads nowhere, is `none`.
-/

namespace InventixDB
namespace Storage
namespace SkipList

open Lib
open Lib.LinkedChain

/-! ## Nodes -/

structure SkipNode where
  value : CStr
  pk : CStr
  forward : List (Option Nat)
  deriving DecidableEq

/-- An index; its nodes stand at their addresses, in the order they were allocated. -/
structure SkipIndex where
  table : CStr
  column : CStr
  level : Nat
  nodes : List SkipNode
  deriving DecidableEq

/-- `idx->header` -/
def header : Nat := 0

def createSkipNode (level : Nat) (value pk : CStr) : SkipNode where
  value := value
  pk := pk
  forward := List.replicate (level + 1) none

def kvCreateIndex (maxLevel : Nat) (indexes : List SkipIndex) (table col : CStr) :
    List SkipIndex :=
  { table := table
    column := col
    level := 0
    nodes := [createSkipNode maxLevel (CStr.lit "") (CStr.lit "")] } :: indexes

/-- `x->forward[i]` -/
def forward (nodes : List SkipNode) (i x : Nat) : Option (Option Nat) :=
  nodes[x]?.bind fun node => node.forward[i]?

/-- `x->forward[i] = next` -/
def setForward (nodes : List SkipNode) (i x : Nat) (next : Option Nat) :
    Option (List SkipNode) :=
  nodes[x]?.bind fun node =>
    if i < node.forward.length then
      some (nodes.set x { node with forward := node.forward.set i next })
    else none

/-- `strcmp(y->value, val) < 0` -/
def below (nodes : List SkipNode) (val : CStr) (y : Nat) : Option Bool :=
  nodes[y]?.map fun node => decide (node.value.val < val.val)

/-! ## Operations -/

/-- The loop over the levels below `i` that every search makes: where it ends on each of them,
level 0 in front, and where it ends at last. -/
def descend (nodes : List SkipNode) (val : CStr) : Nat → Nat → List Nat → Option (Nat × List Nat)
  | 0, x, update => some (x, update)
  | i + 1, x, update =>
      (walk (forward nodes i) (below nodes val) (nodes.length + 1) x).bind fun x =>
        descend nodes val i x (x :: update)

/-- `while (rand() % 2 && lvl < MAX_LEVEL) lvl++`, with the draws in order. -/
def drawLevel (draws : Nat → Bool) : Nat → Nat → Nat
  | 0, lvl => lvl
  | room + 1, lvl => if draws lvl then drawLevel draws room (lvl + 1) else lvl

/-- Link the new node `x` in at one level. -/
def link (x : Nat) (update : List Nat) (nodes : List SkipNode) (i : Nat) :
    Option (List SkipNode) :=
  update[i]?.bind fun pred =>
    (forward nodes i pred).bind fun next =>
      (setForward nodes i x next).bind fun nodes => setForward nodes i pred (some x)

def kvAddToIndex (maxLevel : Nat) (idx : SkipIndex) (val pk : CStr) (draws : Nat → Bool) :
    Option SkipIndex :=
  (descend idx.nodes val (idx.level + 1) header []).bind fun path =>
    let lvl := drawLevel draws maxLevel 0
    let update := path.2 ++ List.replicate (lvl - idx.level) header
    let x := idx.nodes.length
    ((List.range (lvl + 1)).foldlM (link x update)
        (idx.nodes ++ [createSkipNode lvl val pk])).map fun nodes =>
      { idx with level := if lvl > idx.level then lvl else idx.level, nodes := nodes }

/-- The first index of a table on a column. -/
def findIndex (indexes : List SkipIndex) (table col : CStr) : Option SkipIndex :=
  indexes.find? fun idx => idx.table = table && idx.column = col

/-- The node a search ends in front of: the first one of level 0 not below the value. -/
def searchNode (idx : SkipIndex) (val : CStr) : Option (Option Nat) :=
  (descend idx.nodes val (idx.level + 1) header []).bind fun path => forward idx.nodes 0 path.1

/-- The `pk` of a node with the value, or `NULL`. -/
def kvSearchIndex (indexes : List SkipIndex) (table col val : CStr) : Option (Option CStr) :=
  match findIndex indexes table col with
  | none => some none
  | some idx =>
      (searchNode idx val).bind fun x =>
        match x with
        | none => some none
        | some x =>
            idx.nodes[x]?.map fun node => if node.value = val then some node.pk else none

/-- The loop of `kv_scan_index_range`. -/
def scanLoop {σ : Type*} (nodes : List SkipNode) (startVal : CStr) (inclusive : Bool)
    (cb : CStr → CStr → σ → Option (σ × Bool)) : Nat → Option Nat → σ → Option σ
  | 0, _, _ => none
  | _ + 1, none, ctx => some ctx
  | fuel + 1, some x, ctx =>
      match nodes[x]?, forward nodes 0 x with
      | some node, some next =>
          if !inclusive && node.value = startVal then
            scanLoop nodes startVal inclusive cb fuel next ctx
          else
            match cb node.pk node.value ctx with
            | none => none
            | some (ctx, true) => scanLoop nodes startVal inclusive cb fuel next ctx
            | some (ctx, false) => some ctx
      | _, _ => none

def kvScanIndexRange {σ : Type*} (indexes : List SkipIndex) (table col startVal : CStr)
    (inclusive : Bool) (cb : CStr → CStr → σ → Option (σ × Bool)) (ctx : σ) : Option σ :=
  match findIndex indexes table col with
  | none => some ctx
  | some idx =>
      (searchNode idx startVal).bind fun x =>
        scanLoop idx.nodes startVal inclusive cb (idx.nodes.length + 1) x ctx

/-! ## Reading and writing nodes -/

/-- The value and the primary key at an address. -/
def entry (nodes : List SkipNode) (x : Nat) : CStr × CStr :=
  (nodes[x]?.map fun node => (node.value, node.pk)).getD (CStr.lit "", CStr.lit "")

/-- The entry at an address is below the value. -/
def isBelow (nodes : List SkipNode) (val : CStr) (x : Nat) : Bool :=
  decide ((entry nodes x).1.val < val.val)

section Nodes

variable {nodes nodes' : List SkipNode} {node : SkipNode} {i j x y : Nat} {val : CStr}
  {next : Option Nat}

theorem below_of_lt (hx : x < nodes.length) : below nodes val x = some (isBelow nodes val x) := by
  rw [below, isBelow, entry, List.getElem?_eq_getElem hx]
  rfl

theorem lt_of_forward (h : (forward nodes i x).isSome) : x < nodes.length := by
  by_contra hx
  rw [forward, List.getElem?_eq_none (Nat.le_of_not_lt hx)] at h
  cases h

theorem forward_append_of_lt (hx : x < nodes.length) :
    forward (nodes ++ [node]) i x = forward nodes i x := by
  rw [forward, forward, List.getElem?_append_left hx]

theorem entry_append_of_lt (hx : x < nodes.length) :
    entry (nodes ++ [node]) x = entry nodes x := by
  rw [entry, entry, List.getElem?_append_left hx]

theorem entry_concat (nodes : List SkipNode) (node : SkipNode) :
    entry (nodes ++ [node]) nodes.length = (node.value, node.pk) := by
  rw [entry, List.getElem?_concat_length]
  rfl

theorem forward_new (nodes : List SkipNode) {lvl : Nat} (value pk : CStr) (hi : i ≤ lvl) :
    forward (nodes ++ [createSkipNode lvl value pk]) i nodes.length = some none := by
  rw [forward, List.getElem?_concat_length, Option.bind_some, createSkipNode,
    List.getElem?_replicate, if_pos (by omega)]

/-- Writing a pointer changes that pointer and nothing else. -/
theorem setForward_eq (h : (forward nodes i x).isSome) :
    ∃ nodes', setForward nodes i x next = some nodes' ∧ nodes'.length = nodes.length ∧
      (∀ y, entry nodes' y = entry nodes y) ∧
      ∀ j y, forward nodes' j y = if j = i ∧ y = x then some next else forward nodes j y := by
  have hx := lt_of_forward h
  have hget := List.getElem?_eq_getElem hx
  have hi : i < nodes[x].forward.length := by
    by_contra hi
    rw [forward, hget, Option.bind_some, List.getElem?_eq_none (Nat.le_of_not_lt hi)] at h
    cases h
  refine ⟨_, by rw [setForward, hget, Option.bind_some, if_pos hi], List.length_set, ?_, ?_⟩
  · intro y
    rw [entry, entry, List.getElem?_set]
    by_cases hy : x = y
    · subst hy
      rw [if_pos rfl, if_pos hx, hget]
      rfl
    · rw [if_neg hy]
  · intro j y
    rw [forward, forward, List.getElem?_set]
    by_cases hy : x = y
    · subst hy
      rw [if_pos rfl, if_pos hx, hget, Option.bind_some, Option.bind_some, List.getElem?_set]
      by_cases hj : i = j
      · subst hj
        rw [if_pos rfl, if_pos hi, if_pos ⟨rfl, rfl⟩]
      · rw [if_neg hj, if_neg fun hji => hj hji.1.symm]
    · rw [if_neg hy, if_neg fun hyx => hy hyx.2.symm]

end Nodes

/-! ## The levels -/

/-- The lists that the pointers of each level make. -/
structure Levelled (maxLevel : Nat) (idx : SkipIndex) (levels : Nat → List Nat) : Prop where
  chain : ∀ i ≤ maxLevel, Chain (forward idx.nodes i) header (levels i)
  bottom : (header :: levels 0).Perm (List.range idx.nodes.length)
  sorted : (levels 0).Pairwise fun x y =>
    ¬ (entry idx.nodes y).1.val < (entry idx.nodes x).1.val
  sublist : ∀ i, List.Sublist (levels (i + 1)) (levels i)
  above : ∀ i, idx.level < i → levels i = []
  level_le : idx.level ≤ maxLevel

/-- Where a search for the value ends on a level. -/
def predOf (idx : SkipIndex) (levels : Nat → List Nat) (val : CStr) (i : Nat) : Nat :=
  lastPassing (isBelow idx.nodes val) header (levels i)

section Levels

variable {maxLevel : Nat} {idx : SkipIndex} {levels : Nat → List Nat} {val pk : CStr}

theorem Levelled.sublist_bottom (hl : Levelled maxLevel idx levels) (i : Nat) :
    List.Sublist (levels i) (levels 0) := by
  induction i with
  | zero => exact List.Sublist.refl _
  | succ i ih => exact (hl.sublist i).trans ih

theorem Levelled.nodup_bottom (hl : Levelled maxLevel idx levels) : (header :: levels 0).Nodup :=
  hl.bottom.nodup_iff.mpr List.nodup_range

theorem Levelled.nodup (hl : Levelled maxLevel idx levels) (i : Nat) :
    (header :: levels i).Nodup :=
  hl.nodup_bottom.sublist ((hl.sublist_bottom i).cons_cons header)

theorem Levelled.lt_length (hl : Levelled maxLevel idx levels) {i x : Nat}
    (hx : x ∈ header :: levels i) : x < idx.nodes.length := by
  have hbottom : x ∈ header :: levels 0 := ((hl.sublist_bottom i).cons_cons header).subset hx
  exact List.mem_range.mp (hl.bottom.mem_iff.mp hbottom)

theorem Levelled.length_lt (hl : Levelled maxLevel idx levels) (i : Nat) :
    (levels i).length < idx.nodes.length := by
  have hle := (hl.sublist_bottom i).length_le
  have hlen := hl.bottom.length_eq
  rw [List.length_cons, List.length_range] at hlen
  omega

theorem Levelled.sorted_level (hl : Levelled maxLevel idx levels) (i : Nat) :
    (levels i).Pairwise fun x y =>
      ¬ (entry idx.nodes y).1.val < (entry idx.nodes x).1.val :=
  hl.sorted.sublist (hl.sublist_bottom i)

/-- On a level the entries below a value come first. -/
theorem takeWhile_eq_filter (hl : Levelled maxLevel idx levels) (val : CStr) (i : Nat) :
    (levels i).takeWhile (isBelow idx.nodes val) = (levels i).filter (isBelow idx.nodes val) ∧
      (levels i).dropWhile (isBelow idx.nodes val) =
        (levels i).filter fun x => !isBelow idx.nodes val x := by
  have hs := hl.sorted_level i
  generalize levels i = xs at hs
  induction xs with
  | nil => exact ⟨rfl, rfl⟩
  | cons x xs ih =>
      obtain ⟨hx, hxs⟩ := List.pairwise_cons.mp hs
      obtain ⟨htake, hdrop⟩ := ih hxs
      cases hb : isBelow idx.nodes val x with
      | true =>
          rw [List.takeWhile_cons_of_pos hb, List.dropWhile_cons_of_pos hb,
            List.filter_cons_of_pos hb, List.filter_cons_of_neg (by rw [hb]; decide), htake, hdrop]
          exact ⟨rfl, rfl⟩
      | false =>
          have hneg : ¬ isBelow idx.nodes val x = true := by rw [hb]; exact Bool.false_ne_true
          -- What follows an entry that is not below the value is not below it either.
          have hall : ∀ y ∈ xs, isBelow idx.nodes val y = false := by
            intro y hy
            refine decide_eq_false fun hlt => ?_
            have hle := List.not_lt.mp (of_decide_eq_false hb)
            exact List.not_lt.mpr (List.le_trans hle (List.not_lt.mp (hx y hy))) hlt
          have hnone : xs.filter (isBelow idx.nodes val) = [] :=
            List.filter_eq_nil_iff.mpr fun y hy => by rw [hall y hy]; exact Bool.false_ne_true
          have hrest : (xs.filter fun y => !isBelow idx.nodes val y) = xs :=
            List.filter_eq_self.mpr fun y hy => by rw [hall y hy]; rfl
          rw [List.takeWhile_cons_of_neg hneg, List.dropWhile_cons_of_neg hneg,
            List.filter_cons_of_neg hneg, List.filter_cons_of_pos (by rw [hb]; rfl), hnone, hrest]
          exact ⟨rfl, rfl⟩

/-- Walking a level from the header, or from an entry below the value on the level above. -/
theorem Levelled.walk (hl : Levelled maxLevel idx levels) {i x : Nat} (hi : i ≤ maxLevel)
    (hx : x = header ∨ x ∈ levels (i + 1) ∧ isBelow idx.nodes val x = true) :
    LinkedChain.walk (forward idx.nodes i) (below idx.nodes val) (idx.nodes.length + 1) x =
      some (predOf idx levels val i) := by
  have htest : ∀ y ∈ levels i, below idx.nodes val y = some (isBelow idx.nodes val y) :=
    fun y hy => below_of_lt (hl.lt_length (List.mem_cons_of_mem _ hy))
  have hlen := hl.length_lt i
  rcases hx with rfl | ⟨hmem, hbelow⟩
  · exact walk_chain (hl.chain i hi) htest (by omega)
  · obtain ⟨xs, ys, hsplit⟩ := List.append_of_mem ((hl.sublist i).subset hmem)
    have hchain := hl.chain i hi
    have hs := hl.sorted_level i
    rw [hsplit] at hchain htest hlen hs
    rw [predOf, hsplit, lastPassing_append _ hbelow]
    · refine walk_chain hchain.suffix (fun y hy => htest y ?_) ?_
      · exact List.mem_append_right _ (List.mem_cons_of_mem _ hy)
      · rw [List.length_append, List.length_cons] at hlen
        omega
    · intro y hy
      have hle := (List.pairwise_append.mp hs).2.2 y hy x List.mem_cons_self
      exact decide_eq_true (List.lt_of_le_of_lt (List.not_lt.mp hle) (of_decide_eq_true hbelow))

theorem predOf_cases (idx : SkipIndex) (levels : Nat → List Nat) (val : CStr) (i : Nat) :
    predOf idx levels val i = header ∨
      predOf idx levels val i ∈ levels i ∧
        isBelow idx.nodes val (predOf idx levels val i) = true := by
  rcases lastPassing_cases (isBelow idx.nodes val) header (levels i) with ⟨hstart, -⟩ | ⟨zs, hzs⟩
  · exact Or.inl hstart
  · have hmem : predOf idx levels val i ∈ (levels i).takeWhile (isBelow idx.nodes val) := by
      rw [hzs]
      exact List.mem_append_right _ List.mem_cons_self
    exact Or.inr ⟨List.takeWhile_subset _ hmem, List.mem_takeWhile_imp hmem⟩

theorem Levelled.descend (hl : Levelled maxLevel idx levels) (val : CStr) {k x : Nat}
    (hk : k ≤ maxLevel + 1)
    (hx : x = header ∨ x ∈ levels k ∧ isBelow idx.nodes val x = true) (update : List Nat) :
    SkipList.descend idx.nodes val k x update =
      some (if k = 0 then x else predOf idx levels val 0,
        (List.range k).map (predOf idx levels val) ++ update) := by
  induction k generalizing x update with
  | zero => rfl
  | succ k ih =>
      rw [SkipList.descend, hl.walk (by omega) hx, Option.bind_some,
        ih (by omega) (predOf_cases idx levels val k), if_neg (Nat.succ_ne_zero k),
        List.range_succ, List.map_append, List.append_assoc]
      congr 2
      split
      · next hzero => rw [hzero]
      · rfl

/-- A search ends in front of the first entry of level 0 that is not below the value. -/
theorem Levelled.searchNode (hl : Levelled maxLevel idx levels) (val : CStr) :
    SkipList.searchNode idx val =
      some ((levels 0).dropWhile (isBelow idx.nodes val)).head? := by
  have hlevel := hl.level_le
  rw [SkipList.searchNode, hl.descend val (by omega) (Or.inl rfl), Option.bind_some,
    if_neg (Nat.succ_ne_zero _)]
  exact (hl.chain 0 (Nat.zero_le _)).dropWhile.next_eq_head?

end Levels

/-! ## Linking a node in -/

/-- The pointers after the new node `x` was linked in on the levels below `k`. -/
structure Linked (nodes₀ : List SkipNode) (pred : Nat → Nat) (x k : Nat)
    (nodes : List SkipNode) : Prop where
  length : nodes.length = nodes₀.length
  entry : ∀ y, entry nodes y = entry nodes₀ y
  forward : ∀ j y, forward nodes j y =
    if j < k ∧ y = x then SkipList.forward nodes₀ j (pred j)
    else if j < k ∧ y = pred j then some (some x)
    else SkipList.forward nodes₀ j y

section Link

variable {nodes₀ nodes : List SkipNode} {pred : Nat → Nat} {x k : Nat} {update : List Nat}

theorem Linked.link (hl : Linked nodes₀ pred x k nodes) (hupdate : update[k]? = some (pred k))
    (hpred : (SkipList.forward nodes₀ k (pred k)).isSome)
    (hx : (SkipList.forward nodes₀ k x).isSome) (hne : pred k ≠ x) :
    ∃ nodes', SkipList.link x update nodes k = some nodes' ∧
      Linked nodes₀ pred x (k + 1) nodes' := by
  have hold : ∀ y, SkipList.forward nodes k y = SkipList.forward nodes₀ k y := by
    intro y
    rw [hl.forward, if_neg (by omega), if_neg (by omega)]
  obtain ⟨next, hnext⟩ := Option.isSome_iff_exists.mp hpred
  obtain ⟨nodes₁, hset₁, hlen₁, hentry₁, hfwd₁⟩ :=
    @setForward_eq nodes k x next (by rw [hold]; exact hx)
  have hpred₁ : (SkipList.forward nodes₁ k (pred k)).isSome := by
    rw [hfwd₁, if_neg fun h => hne h.2, hold]
    exact hpred
  obtain ⟨nodes₂, hset₂, hlen₂, hentry₂, hfwd₂⟩ := @setForward_eq nodes₁ k (pred k) (some x) hpred₁
  refine ⟨nodes₂, ?_, ?_, ?_, ?_⟩
  · rw [SkipList.link, hupdate, Option.bind_some, hold, hnext, Option.bind_some, hset₁,
      Option.bind_some, hset₂]
  · rw [hlen₂, hlen₁, hl.length]
  · intro y
    rw [hentry₂, hentry₁, hl.entry]
  · intro j y
    rw [hfwd₂, hfwd₁, hl.forward]
    by_cases hj : j = k
    · subst hj
      have hnot : ∀ P : Prop, ¬ (j < j ∧ P) := fun P h => absurd h.1 (Nat.lt_irrefl j)
      rw [if_neg (hnot _), if_neg (hnot _)]
      by_cases hy : y = x
      · subst hy
        rw [if_neg fun h => hne h.2.symm, if_pos ⟨rfl, rfl⟩, if_pos ⟨Nat.lt_succ_self j, rfl⟩,
          hnext]
      · rw [if_neg fun h : j < j + 1 ∧ y = x => hy h.2, if_neg fun h : j = j ∧ y = x => hy h.2]
        by_cases hyp : y = pred j
        · rw [if_pos ⟨rfl, hyp⟩, if_pos ⟨Nat.lt_succ_self j, hyp⟩]
        · rw [if_neg fun h : j = j ∧ y = pred j => hyp h.2,
            if_neg fun h : j < j + 1 ∧ y = pred j => hyp h.2]
    · have hlt : ∀ P : Prop, (j < k + 1 ∧ P) ↔ (j < k ∧ P) := fun P => by
        constructor
        · exact fun h => ⟨by omega, h.2⟩
        · exact fun h => ⟨by omega, h.2⟩
      simp only [hj, false_and, if_false, hlt]

theorem linked_all (lvl : Nat) (hupdate : ∀ j ≤ lvl, update[j]? = some (pred j))
    (hpred : ∀ j ≤ lvl, (SkipList.forward nodes₀ j (pred j)).isSome)
    (hx : ∀ j ≤ lvl, (SkipList.forward nodes₀ j x).isSome) (hne : ∀ j, pred j ≠ x)
    (hk : k ≤ lvl + 1) :
    ∃ nodes, (List.range k).foldlM (SkipList.link x update) nodes₀ = some nodes ∧
      Linked nodes₀ pred x k nodes := by
  induction k with
  | zero =>
      refine ⟨nodes₀, rfl, rfl, fun _ => rfl, fun j y => ?_⟩
      rw [if_neg (by omega), if_neg (by omega)]
  | succ k ih =>
      obtain ⟨nodes, hrun, hl⟩ := ih (by omega)
      obtain ⟨nodes', hlink, hl'⟩ := hl.link (hupdate k (by omega)) (hpred k (by omega))
        (hx k (by omega)) (hne k)
      refine ⟨nodes', ?_, hl'⟩
      rw [List.range_succ, List.foldlM_append, hrun]
      change (List.foldlM (SkipList.link x update) nodes [k]) = some nodes'
      rw [List.foldlM_cons, hlink]
      rfl

end Link

/-! ## One call -/

/-- The entries of level 0, in order. -/
def entries (idx : SkipIndex) (levels : Nat → List Nat) : List (CStr × CStr) :=
  (levels 0).map (entry idx.nodes)

/-- The levels with the new node on the first `lvl + 1` of them. -/
def withNode (idx : SkipIndex) (levels : Nat → List Nat) (val : CStr) (lvl i : Nat) : List Nat :=
  if i ≤ lvl then
    (levels i).takeWhile (isBelow idx.nodes val) ++
      idx.nodes.length :: (levels i).dropWhile (isBelow idx.nodes val)
  else levels i

section Add

variable {maxLevel : Nat} {idx : SkipIndex} {levels : Nat → List Nat} {val pk : CStr}

theorem drawLevel_le (draws : Nat → Bool) (room lvl : Nat) :
    drawLevel draws room lvl ≤ lvl + room := by
  induction room generalizing lvl with
  | zero => exact Nat.le_refl _
  | succ room ih =>
      rw [drawLevel]
      split
      · have hrest := ih (lvl + 1)
        omega
      · omega

theorem predOf_mem (idx : SkipIndex) (levels : Nat → List Nat) (val : CStr) (i : Nat) :
    predOf idx levels val i ∈ header :: levels i := by
  rcases predOf_cases idx levels val i with hstart | ⟨hmem, -⟩
  · rw [hstart]
    exact List.mem_cons_self
  · exact List.mem_cons_of_mem _ hmem

/-- The `update` array of an insert, up to the level of the new node. -/
theorem Levelled.update (hl : Levelled maxLevel idx levels) (val : CStr) {lvl j : Nat}
    (hj : j ≤ lvl) :
    ((List.range (idx.level + 1)).map (predOf idx levels val) ++ [] ++
        List.replicate (lvl - idx.level) header)[j]? = some (predOf idx levels val j) := by
  rw [List.append_nil]
  by_cases hin : j < idx.level + 1
  · rw [List.getElem?_append_left (by rwa [List.length_map, List.length_range]),
      List.getElem?_map, List.getElem?_range hin, Option.map_some]
  · have hempty : predOf idx levels val j = header := by
      rw [predOf, hl.above j (by omega)]
      rfl
    rw [List.getElem?_append_right (by rw [List.length_map, List.length_range]; omega),
      List.length_map, List.length_range, List.getElem?_replicate, if_pos (by omega), hempty]

/-- The levels stay sorted sublists of each other when a node is put in. -/
theorem Levelled.sublist_withNode (hl : Levelled maxLevel idx levels) (val : CStr) (lvl i : Nat) :
    List.Sublist (withNode idx levels val lvl (i + 1)) (withNode idx levels val lvl i) := by
  obtain ⟨htake, hdrop⟩ := takeWhile_eq_filter hl val i
  obtain ⟨htake', hdrop'⟩ := takeWhile_eq_filter hl val (i + 1)
  have hsub := hl.sublist i
  rw [withNode, withNode]
  by_cases hin : i + 1 ≤ lvl
  · rw [if_pos hin, if_pos (by omega), htake, hdrop, htake', hdrop']
    exact (hsub.filter _).append ((hsub.filter _).cons_cons _)
  · rw [if_neg hin]
    by_cases hlast : i ≤ lvl
    · rw [if_pos hlast]
      refine hsub.trans ?_
      nth_rewrite 1 [← List.takeWhile_append_dropWhile (p := isBelow idx.nodes val)
        (l := levels i)]
      exact List.Sublist.append (List.Sublist.refl _) (List.sublist_cons_self _ _)
    · rwa [if_neg hlast]

/-- The new entry goes in front of the first one not below it. -/
theorem entries_withNode (idx : SkipIndex) (levels : Nat → List Nat) (lvl : Nat)
    {nodes : List SkipNode} (hold : ∀ x ∈ levels 0, entry nodes x = entry idx.nodes x)
    (hnew : entry nodes idx.nodes.length = (val, pk)) (level : Nat) :
    entries { idx with level := level, nodes := nodes } (withNode idx levels val lvl) =
      (entries idx levels).takeWhile (fun e => e.1.val < val.val) ++
        (val, pk) :: (entries idx levels).dropWhile (fun e => e.1.val < val.val) := by
  have htake : ((levels 0).takeWhile (isBelow idx.nodes val)).map (entry nodes) =
      ((levels 0).map (entry idx.nodes)).takeWhile fun e => e.1.val < val.val := by
    rw [List.takeWhile_map]
    exact List.map_congr_left fun x hx => hold x (List.takeWhile_subset _ hx)
  have hdrop : ((levels 0).dropWhile (isBelow idx.nodes val)).map (entry nodes) =
      ((levels 0).map (entry idx.nodes)).dropWhile fun e => e.1.val < val.val := by
    rw [List.dropWhile_map]
    exact List.map_congr_left fun x hx => hold x ((List.dropWhile_sublist _).subset hx)
  rw [entries, withNode, if_pos (Nat.zero_le _), List.map_append, List.map_cons, htake, hdrop, hnew]
  rfl

theorem Levelled.perm_withNode (hl : Levelled maxLevel idx levels) (val : CStr) (lvl : Nat) :
    (header :: withNode idx levels val lvl 0).Perm (List.range (idx.nodes.length + 1)) := by
  rw [withNode, if_pos (Nat.zero_le _), List.range_succ]
  have hmid : (withNode idx levels val lvl 0).Perm (idx.nodes.length :: levels 0) := by
    rw [withNode, if_pos (Nat.zero_le _)]
    refine List.perm_middle.trans (List.Perm.cons _ ?_)
    rw [List.takeWhile_append_dropWhile]
  rw [withNode, if_pos (Nat.zero_le _)] at hmid
  calc (header :: _ : List Nat).Perm (header :: idx.nodes.length :: levels 0) := hmid.cons header
    List.Perm _ (idx.nodes.length :: header :: levels 0) := List.Perm.swap _ _ _
    List.Perm _ (idx.nodes.length :: List.range idx.nodes.length) := hl.bottom.cons _
    List.Perm _ (List.range idx.nodes.length ++ [idx.nodes.length]) :=
      (List.perm_append_singleton _ _).symm

theorem Levelled.sorted_withNode (hl : Levelled maxLevel idx levels) (lvl : Nat)
    {nodes : List SkipNode} (hold : ∀ x ∈ levels 0, entry nodes x = entry idx.nodes x)
    (hnew : entry nodes idx.nodes.length = (val, pk)) :
    (withNode idx levels val lvl 0).Pairwise fun x y =>
      ¬ (entry nodes y).1.val < (entry nodes x).1.val := by
  have htake : ∀ x ∈ (levels 0).takeWhile (isBelow idx.nodes val),
      (entry nodes x).1.val < val.val := by
    intro x hx
    have hbelow : isBelow idx.nodes val x = true := List.mem_takeWhile_imp hx
    rw [hold x (List.takeWhile_subset _ hx)]
    exact of_decide_eq_true hbelow
  have hdrop : ∀ x ∈ (levels 0).dropWhile (isBelow idx.nodes val),
      ¬ (entry nodes x).1.val < val.val := by
    intro x hx
    rw [hold x ((List.dropWhile_sublist _).subset hx)]
    rw [(takeWhile_eq_filter hl val 0).2] at hx
    have hnot := (List.mem_filter.mp hx).2
    rw [Bool.not_eq_true'] at hnot
    exact of_decide_eq_false hnot
  have hsorted : (levels 0).Pairwise fun x y =>
      ¬ (entry nodes y).1.val < (entry nodes x).1.val := by
    refine hl.sorted.imp_of_mem fun hx hy hxy => ?_
    rwa [hold _ hx, hold _ hy]
  rw [withNode, if_pos (Nat.zero_le _)]
  refine List.pairwise_append.mpr ⟨hsorted.sublist (List.takeWhile_sublist _),
    List.pairwise_cons.mpr ⟨fun y hy => ?_, hsorted.sublist (List.dropWhile_sublist _)⟩,
    fun x hx y hy => ?_⟩
  · rw [hnew]
    exact hdrop y hy
  · rcases List.mem_cons.mp hy with rfl | hy
    · rw [hnew]
      exact List.lt_asymm (htake x hx)
    · exact fun hlt => hdrop y hy (List.lt_trans hlt (htake x hx))

/-- Whatever level is drawn, an insert keeps the levels and puts one entry into the lowest. -/
theorem Levelled.kvAddToIndex (hl : Levelled maxLevel idx levels) (val pk : CStr)
    (draws : Nat → Bool) :
    ∃ idx' levels', SkipList.kvAddToIndex maxLevel idx val pk draws = some idx' ∧
      Levelled maxLevel idx' levels' ∧ idx'.table = idx.table ∧ idx'.column = idx.column ∧
      entries idx' levels' =
        (entries idx levels).takeWhile (fun e => e.1.val < val.val) ++
          (val, pk) :: (entries idx levels).dropWhile (fun e => e.1.val < val.val) := by
  obtain ⟨lvl, hlvl⟩ : ∃ lvl, lvl = drawLevel draws maxLevel 0 := ⟨_, rfl⟩
  have hmax : lvl ≤ maxLevel := by
    have hdraw := drawLevel_le draws maxLevel 0
    omega
  have hlevel := hl.level_le
  obtain ⟨nodes₀, hnodes₀⟩ : ∃ nodes₀, nodes₀ = idx.nodes ++ [createSkipNode lvl val pk] :=
    ⟨_, rfl⟩
  have hchain₀ : ∀ i ≤ maxLevel, Chain (forward nodes₀ i) header (levels i) := by
    intro i hi
    refine (hl.chain i hi).congr fun y hy => ?_
    rw [hnodes₀, forward_append_of_lt (hl.lt_length hy)]
  have hmem := predOf_mem idx levels val
  have hne : ∀ j, predOf idx levels val j ≠ idx.nodes.length :=
    fun j => Nat.ne_of_lt (hl.lt_length (hmem j))
  obtain ⟨nodes, hrun, hlinked⟩ :=
    @linked_all nodes₀ (predOf idx levels val) idx.nodes.length (lvl + 1) _ lvl
      (fun j hj => hl.update val hj)
      (fun j hj => (hchain₀ j (by omega)).next_isSome _ (hmem j))
      (fun j hj => by rw [hnodes₀, forward_new _ _ _ hj]; rfl) hne le_rfl
  have hentry : ∀ x < idx.nodes.length, entry nodes x = entry idx.nodes x := by
    intro x hx
    rw [hlinked.entry, hnodes₀, entry_append_of_lt hx]
  have hnew : entry nodes idx.nodes.length = (val, pk) := by
    rw [hlinked.entry, hnodes₀, entry_concat]
    rfl
  have hold : ∀ x ∈ levels 0, entry nodes x = entry idx.nodes x :=
    fun x hx => hentry x (hl.lt_length (List.mem_cons_of_mem _ hx))
  refine ⟨{ idx with
      level := if lvl > idx.level then lvl else idx.level
      nodes := nodes }, withNode idx levels val lvl, ?_, ?_, rfl, rfl,
    entries_withNode idx levels lvl hold hnew _⟩
  · rw [SkipList.kvAddToIndex, hl.descend val (by omega) (Or.inl rfl), Option.bind_some]
    dsimp only
    rw [← hlvl, ← hnodes₀, hrun, Option.map_some]
  · refine ⟨fun i hi => ?_, ?_, ?_, hl.sublist_withNode val lvl, fun i hi => ?_, ?_⟩
    · dsimp only
      rw [withNode]
      by_cases hin : i ≤ lvl
      · rw [if_pos hin]
        have hlt : i < lvl + 1 := by omega
        refine (hchain₀ i hi).splice (hl.nodup i) ?_ ?_ fun y hy hyp => ?_
        · rw [hlinked.forward, if_neg fun h => hne i h.2, if_pos ⟨hlt, rfl⟩]
        · rw [hlinked.forward, if_pos ⟨hlt, rfl⟩]
          rfl
        · rw [hlinked.forward, if_neg fun h => Nat.ne_of_lt (hl.lt_length hy) h.2,
            if_neg fun h => hyp h.2]
      · rw [if_neg hin]
        refine (hchain₀ i hi).congr fun y _ => ?_
        rw [hlinked.forward, if_neg (by omega), if_neg (by omega)]
    · have hlen : nodes.length = idx.nodes.length + 1 := by
        rw [hlinked.length, hnodes₀, List.length_append]
        rfl
      dsimp only
      rw [hlen]
      exact hl.perm_withNode val lvl
    · exact hl.sorted_withNode lvl hold hnew
    · dsimp only at hi
      rw [withNode]
      split at hi
      · rw [if_neg (by omega), hl.above i (by omega)]
      · rw [if_neg (by omega), hl.above i hi]
    · dsimp only
      split <;> omega

end Add

/-! ## The list of `Index` -/

/-- The index as the list of its entries. -/
def toIndex (idx : SkipIndex) (levels : Nat → List Nat) : Index where
  table := idx.table
  column := idx.column
  nodes := entries idx levels

/-- The pointers refine the list: the same entry goes to the same place. -/
theorem Levelled.toIndex_kvAddToIndex {maxLevel : Nat} {idx : SkipIndex}
    {levels : Nat → List Nat} (hl : Levelled maxLevel idx levels) (val pk : CStr)
    (draws : Nat → Bool) :
    ∃ idx' levels', SkipList.kvAddToIndex maxLevel idx val pk draws = some idx' ∧
      Levelled maxLevel idx' levels' ∧
      toIndex idx' levels' = Storage.kvAddToIndex (toIndex idx levels) val pk := by
  obtain ⟨idx', levels', hadd, hl', htable, hcolumn, hentries⟩ := hl.kvAddToIndex val pk draws
  have hdrop : ∀ es : List (CStr × CStr),
      es.drop (es.takeWhile fun e => e.1.val < val.val).length =
        es.dropWhile fun e => e.1.val < val.val := by
    intro es
    have hsplit := @List.takeWhile_append_dropWhile _ (fun e => decide (e.1.val < val.val)) es
    calc es.drop (es.takeWhile fun e => e.1.val < val.val).length
        = ((es.takeWhile fun e => e.1.val < val.val) ++
            es.dropWhile fun e => e.1.val < val.val).drop
              (es.takeWhile fun e => e.1.val < val.val).length := by rw [hsplit]
      _ = es.dropWhile fun e => e.1.val < val.val := List.drop_left
  refine ⟨idx', levels', hadd, hl', ?_⟩
  rw [toIndex, Storage.kvAddToIndex, htable, hcolumn, hentries]
  dsimp only [toIndex]
  rw [hdrop]

/-! ## Scanning -/

/-- Pass entries to a callback until it answers 0. -/
def enumerate {σ : Type*} (cb : CStr → CStr → σ → Option (σ × Bool)) :
    List (CStr × CStr) → σ → Option σ
  | [], ctx => some ctx
  | e :: es, ctx =>
      match cb e.2 e.1 ctx with
      | none => none
      | some (ctx, true) => enumerate cb es ctx
      | some (ctx, false) => some ctx

/-- The entries from a value on, or behind it. -/
def entriesFrom (inclusive : Bool) (val : CStr) (es : List (CStr × CStr)) : List (CStr × CStr) :=
  es.filter fun e => if inclusive then !decide (e.1.val < val.val) else decide (val.val < e.1.val)

section Scan

variable {σ : Type*} {nodes : List SkipNode} {startVal : CStr} {inclusive : Bool}
  {cb : CStr → CStr → σ → Option (σ × Bool)}

/-- Following the pointers of level 0 is the loop over the list of entries. -/
theorem scanLoop_eq {x : Nat} {ys : List Nat} (hc : Chain (forward nodes 0) x ys) {fuel : Nat}
    (hfuel : ys.length < fuel) (ctx : σ) :
    scanLoop nodes startVal inclusive cb fuel ys.head? ctx =
      scanNodes startVal inclusive cb (ys.map (entry nodes)) ctx := by
  induction ys generalizing x fuel ctx with
  | nil =>
      obtain ⟨fuel, rfl⟩ : ∃ m, fuel = m + 1 := ⟨fuel - 1, by omega⟩
      rfl
  | cons y ys ih =>
      obtain ⟨fuel, rfl⟩ : ∃ m, fuel = m + 1 := ⟨fuel - 1, by omega⟩
      have hy := lt_of_forward (hc.2.next_isSome y List.mem_cons_self)
      have hrest := fun ctx => ih hc.2 (Nat.lt_of_succ_lt_succ hfuel) ctx
      have hentry : entry nodes y = (nodes[y].value, nodes[y].pk) := by
        rw [entry, List.getElem?_eq_getElem hy]
        rfl
      rw [List.head?_cons, scanLoop, List.getElem?_eq_getElem hy, hc.2.next_eq_head?,
        List.map_cons, scanNodes, hentry]
      dsimp only
      by_cases hskip : (!inclusive && decide (nodes[y].value = startVal)) = true
      · rw [if_pos hskip, if_pos hskip, hrest]
      · rw [if_neg hskip, if_neg hskip]
        rcases cb nodes[y].pk nodes[y].value ctx with _ | ⟨ctx, go⟩
        · rfl
        · cases go
          · rfl
          · exact hrest ctx

theorem scanNodes_eq (startVal : CStr) (inclusive : Bool)
    (cb : CStr → CStr → σ → Option (σ × Bool)) (es : List (CStr × CStr)) (ctx : σ) :
    scanNodes startVal inclusive cb es ctx =
      enumerate cb (es.filter fun e => !(!inclusive && decide (e.1 = startVal))) ctx := by
  induction es generalizing ctx with
  | nil => rfl
  | cons e es ih =>
      rw [scanNodes]
      by_cases hskip : (!inclusive && decide (e.1 = startVal)) = true
      · rw [if_pos hskip, ih, List.filter_cons_of_neg (by rw [hskip]; decide)]
      · rw [if_neg hskip, List.filter_cons_of_pos (by rw [Bool.eq_false_of_not_eq_true hskip]; rfl),
          enumerate]
        rcases cb e.2 e.1 ctx with _ | ⟨ctx, go⟩
        · rfl
        · cases go
          · rfl
          · exact ih ctx

end Scan

/-! ## Runs -/

section Runs

variable {maxLevel : Nat} {idx : SkipIndex} {levels : Nat → List Nat} {indexes : List SkipIndex}

/-- A call of `kv_add_to_index`, with what `rand` answers during it. -/
structure Add where
  val : CStr
  pk : CStr
  draws : Nat → Bool

def addAll (maxLevel : Nat) (idx : SkipIndex) (adds : List Add) : Option SkipIndex :=
  adds.foldlM (fun idx add => kvAddToIndex maxLevel idx add.val add.pk add.draws) idx

/-- The entries the calls add. -/
def added (adds : List Add) : List (CStr × CStr) :=
  adds.map fun add => (add.val, add.pk)

theorem levelled_new (maxLevel : Nat) (table col : CStr) :
    Levelled maxLevel
      { table := table
        column := col
        level := 0
        nodes := [createSkipNode maxLevel (CStr.lit "") (CStr.lit "")] } fun _ => [] where
  chain i hi := @forward_new i [] maxLevel (CStr.lit "") (CStr.lit "") hi
  bottom := List.Perm.refl _
  sorted := List.Pairwise.nil
  sublist _ := List.Sublist.refl _
  above _ _ := rfl
  level_le := Nat.zero_le _

theorem Levelled.addAll (hl : Levelled maxLevel idx levels) (adds : List Add) :
    ∃ idx' levels', SkipList.addAll maxLevel idx adds = some idx' ∧
      Levelled maxLevel idx' levels' ∧ idx'.table = idx.table ∧ idx'.column = idx.column ∧
      (entries idx' levels').Perm (added adds ++ entries idx levels) := by
  induction adds generalizing idx levels with
  | nil => exact ⟨idx, levels, rfl, hl, rfl, rfl, List.Perm.refl _⟩
  | cons add adds ih =>
      obtain ⟨idx₁, levels₁, hadd, hl₁, htable₁, hcolumn₁, hentries₁⟩ :=
        hl.kvAddToIndex add.val add.pk add.draws
      obtain ⟨idx', levels', hrun, hl', htable, hcolumn, hperm⟩ := ih hl₁
      refine ⟨idx', levels', ?_, hl', htable.trans htable₁, hcolumn.trans hcolumn₁, ?_⟩
      · rw [SkipList.addAll, List.foldlM_cons, hadd]
        exact hrun
      · have hone : (entries idx₁ levels₁).Perm ((add.val, add.pk) :: entries idx levels) := by
          rw [hentries₁]
          refine List.perm_middle.trans (List.Perm.cons _ ?_)
          rw [List.takeWhile_append_dropWhile]
        refine hperm.trans ((hone.append_left (added adds)).trans ?_)
        exact List.perm_middle

/-- The entries of level 0 do not fall. -/
theorem Levelled.sorted_entries (hl : Levelled maxLevel idx levels) :
    (entries idx levels).Pairwise fun a b => ¬ b.1.val < a.1.val :=
  List.pairwise_map.mpr hl.sorted

/-- The entries a search ends in front of. -/
theorem Levelled.entries_dropWhile (hl : Levelled maxLevel idx levels) (val : CStr) :
    ((levels 0).dropWhile (isBelow idx.nodes val)).map (entry idx.nodes) =
      (entries idx levels).filter fun e => !decide (e.1.val < val.val) := by
  rw [(takeWhile_eq_filter hl val 0).2, entries, List.filter_map]
  rfl

theorem Levelled.kvScanIndexRange (hl : Levelled maxLevel idx levels) (startVal : CStr)
    (inclusive : Bool) {σ : Type*} (cb : CStr → CStr → σ → Option (σ × Bool)) (ctx : σ) :
    SkipList.kvScanIndexRange (idx :: indexes) idx.table idx.column startVal inclusive cb ctx =
      enumerate cb (entriesFrom inclusive startVal (entries idx levels)) ctx := by
  have hfind : findIndex (idx :: indexes) idx.table idx.column = some idx :=
    List.find?_cons_of_pos (by simp)
  have hlen : ((levels 0).dropWhile (isBelow idx.nodes startVal)).length <
      idx.nodes.length + 1 := by
    have hle := (List.dropWhile_sublist (l := levels 0) (isBelow idx.nodes startVal)).length_le
    have hlt := hl.length_lt 0
    omega
  rw [SkipList.kvScanIndexRange, hfind]
  dsimp only
  rw [hl.searchNode, Option.bind_some,
    scanLoop_eq ((hl.chain 0 (Nat.zero_le _)).dropWhile) hlen, hl.entries_dropWhile,
    scanNodes_eq, List.filter_filter, entriesFrom]
  congr 2
  funext e
  cases inclusive with
  | true => simp
  | false =>
      by_cases hlt : e.1.val < startVal.val
      · have hnot : ¬ startVal.val < e.1.val := List.lt_asymm hlt
        simp [hlt, hnot]
      · by_cases heq : e.1 = startVal
        · have hirr : ¬ startVal.val < startVal.val := List.lt_irrefl _
          rw [heq, decide_eq_false hirr]
          simp
        · have hgt : startVal.val < e.1.val := by
            by_contra hnot
            exact heq (Subtype.ext (List.le_antisymm (List.not_lt.mp hnot) (List.not_lt.mp hlt)))
          simp [hlt, heq, hgt]

/-- A value is found exactly if an entry has it, by the primary key of such an entry. -/
theorem Levelled.kvSearchIndex (hl : Levelled maxLevel idx levels) (val : CStr) :
    ∃ r, SkipList.kvSearchIndex (idx :: indexes) idx.table idx.column val = some r ∧
      (r.isSome ↔ ∃ e ∈ entries idx levels, e.1 = val) ∧
      ∀ pk, r = some pk → (val, pk) ∈ entries idx levels := by
  have hfind : findIndex (idx :: indexes) idx.table idx.column = some idx :=
    List.find?_cons_of_pos (by simp)
  have hrest := hl.entries_dropWhile val
  have hsorted := hl.sorted_entries
  rw [SkipList.kvSearchIndex, hfind]
  dsimp only
  rw [hl.searchNode, Option.bind_some]
  cases hdrop : (levels 0).dropWhile (isBelow idx.nodes val) with
  | nil =>
      rw [hdrop] at hrest
      refine ⟨none, rfl, ⟨fun h => absurd h Bool.false_ne_true, ?_⟩, fun _ h => nomatch h⟩
      rintro ⟨e, he, heq⟩
      have hmem : e ∈ (entries idx levels).filter fun e => !decide (e.1.val < val.val) :=
        List.mem_filter.mpr ⟨he, by rw [heq, decide_eq_false (List.lt_irrefl _)]; rfl⟩
      rw [← hrest] at hmem
      cases hmem
  | cons x xs =>
      have hx : x < idx.nodes.length := hl.lt_length (i := 0) (List.mem_cons_of_mem _
        ((List.dropWhile_sublist _).subset (hdrop ▸ List.mem_cons_self)))
      have hentry : entry idx.nodes x = (idx.nodes[x].value, idx.nodes[x].pk) := by
        rw [entry, List.getElem?_eq_getElem hx]
        rfl
      rw [hdrop, List.map_cons, hentry] at hrest
      have hmem : (idx.nodes[x].value, idx.nodes[x].pk) ∈ entries idx levels :=
        (List.mem_filter.mp (hrest ▸ List.mem_cons_self)).1
      rw [List.head?_cons]
      dsimp only
      rw [List.getElem?_eq_getElem hx, Option.map_some]
      by_cases hval : idx.nodes[x].value = val
      · rw [if_pos hval]
        rw [hval] at hmem
        refine ⟨some idx.nodes[x].pk, rfl, ⟨fun _ => ⟨_, hmem, rfl⟩, fun _ => rfl⟩, ?_⟩
        rintro pk ⟨⟩
        exact hmem
      · rw [if_neg hval]
        refine ⟨none, rfl, ⟨fun h => absurd h Bool.false_ne_true, ?_⟩, fun _ h => nomatch h⟩
        rintro ⟨e, he, heq⟩
        have hrestmem : e ∈ (entries idx levels).filter fun e => !decide (e.1.val < val.val) :=
          List.mem_filter.mpr ⟨he, by rw [heq, decide_eq_false (List.lt_irrefl _)]; rfl⟩
        have hfirst : (idx.nodes[x].value, idx.nodes[x].pk) ∈
            (entries idx levels).filter fun e => !decide (e.1.val < val.val) :=
          hrest ▸ List.mem_cons_self
        have hpair := hsorted.filter fun e => !decide (e.1.val < val.val)
        rw [← hrest] at hrestmem hpair
        rcases List.mem_cons.mp hrestmem with hhead | htail
        · exact absurd (by rw [← heq, hhead]) hval
        · -- The first entry is neither below the value nor above one that has it.
          have hle := (List.pairwise_cons.mp hpair).1 e htail
          have hge := (List.mem_filter.mp hfirst).2
          rw [Bool.not_eq_true'] at hge
          rw [heq] at hle
          exact absurd (Subtype.ext (List.le_antisymm (List.not_lt.mp hle)
            (List.not_lt.mp (of_decide_eq_false hge)))) hval

/-- A new index after any inserts, whatever levels are drawn: the pointers of each level make a
sublist of the level below, level 0 has the added entries in order, and searches and scans read
exactly these. -/
theorem index_of_adds (maxLevel : Nat) (indexes : List SkipIndex) (table col : CStr)
    (adds : List Add) :
    ∃ idx levels,
      ((kvCreateIndex maxLevel indexes table col).head?.bind fun idx =>
        addAll maxLevel idx adds) = some idx ∧
      (∀ i ≤ idx.level, Chain (forward idx.nodes i) header (levels i)) ∧
      (∀ i, List.Sublist (levels (i + 1)) (levels i)) ∧
      (entries idx levels).Perm (added adds) ∧
      (entries idx levels).Pairwise (fun a b => ¬ b.1.val < a.1.val) ∧
      (∀ val, ∃ r, kvSearchIndex (idx :: indexes) table col val = some r ∧
        (r.isSome ↔ ∃ e ∈ added adds, e.1 = val) ∧ ∀ pk, r = some pk → (val, pk) ∈ added adds) ∧
      ∀ (startVal : CStr) (inclusive : Bool) (σ : Type)
        (cb : CStr → CStr → σ → Option (σ × Bool)) (ctx : σ),
        kvScanIndexRange (idx :: indexes) table col startVal inclusive cb ctx =
          enumerate cb (entriesFrom inclusive startVal (entries idx levels)) ctx := by
  obtain ⟨idx, levels, hrun, hl, htable, hcolumn, hperm⟩ :=
    (levelled_new maxLevel table col).addAll adds
  have hadded : (entries idx levels).Perm (added adds) := by
    refine hperm.trans ?_
    rw [entries, List.map_nil, List.append_nil]
  refine ⟨idx, levels, hrun, fun i hi => hl.chain i (hi.trans hl.level_le), hl.sublist, hadded,
    hl.sorted_entries, fun val => ?_, fun startVal inclusive σ cb ctx => ?_⟩
  · obtain ⟨r, hr, hfound, hpk⟩ := @Levelled.kvSearchIndex maxLevel idx levels indexes hl val
    rw [htable, hcolumn] at hr
    refine ⟨r, hr, hfound.trans ?_, fun pk h => hadded.mem_iff.mp (hpk pk h)⟩
    exact exists_congr fun e => and_congr_left fun _ => hadded.mem_iff
  · have hscan := @Levelled.kvScanIndexRange maxLevel idx levels indexes hl startVal inclusive σ
      cb ctx
    rwa [htable, hcolumn] at hscan

end Runs

end SkipList
end Storage
end InventixDB
