import InventixDB.Lib.Buffer
import InventixDB.Storage.TreeAgreement

/-!
# LeafPage — the bytes of a leaf, its binary search and its shifting insert

`BTree` has the cells of the root leaf as a list.  Here they stand in a page of 4096 bytes, and an
insert moves them one by one.  The page refines the list (`cells_leafNodeInsert`), and equal keys
are allowed: the cells are sorted with repetitions.
-/

namespace InventixDB
namespace Storage
namespace LeafPage

open Lib
open Lib.Buffer

/-! ## Layout -/

/-- `NODE_LEAF` -/
def nodeLeaf : Nat := 1

def nodeTypeOffset : Nat := 0

def isRootOffset : Nat := 1

/-- `LEAF_NODE_NUM_CELLS_OFFSET` is `COMMON_NODE_HEADER_SIZE`. -/
def leafNodeNumCellsOffset : Nat := 6

def leafNodeHeaderSize : Nat := 10

def leafNodeKeySize : Nat := 4

/-- `LEAF_NODE_CELL_SIZE` -/
def leafNodeCellSize : Nat := leafNodeKeySize + internalRowSize

/-- A page of the pool, read as a leaf. -/
structure Node where
  bytes : List UInt8
  size : bytes.length = 4096
  deriving DecidableEq

/-- `Row` -/
structure Row where
  data : List UInt8
  size : data.length = internalRowSize
  deriving DecidableEq

def Node.write (node : Node) (pos : Nat) (data : List UInt8) : Node where
  bytes := Buffer.write node.bytes pos data
  size := by rw [length_write, node.size]

def Node.writeLE (node : Node) (pos w v : Nat) : Node where
  bytes := Buffer.writeLE node.bytes pos w v
  size := by rw [length_writeLE, node.size]

def leafNodeNumCells (node : Node) : Nat :=
  readLE node.bytes leafNodeNumCellsOffset 4

/-- Where a cell starts. -/
def leafNodeCell (cellNum : Nat) : Nat :=
  leafNodeHeaderSize + cellNum * leafNodeCellSize

def leafNodeKey (node : Node) (cellNum : Nat) : UInt32 :=
  UInt32.ofNat (readLE node.bytes (leafNodeCell cellNum) leafNodeKeySize)

def leafNodeValue (node : Node) (cellNum : Nat) : List UInt8 :=
  read node.bytes (leafNodeCell cellNum + leafNodeKeySize) internalRowSize

/-! ## Operations -/

def leafNodeInit (node : Node) : Node :=
  ((node.writeLE nodeTypeOffset 1 nodeLeaf).writeLE isRootOffset 1 0).writeLE
    leafNodeNumCellsOffset 4 0

/-- The root leaf `db_open` leaves in page 0 of a new file. -/
def dbOpen (page : Node) : Node :=
  (leafNodeInit page).writeLE isRootOffset 1 1

/-- The loop of `table_find` in `uint32_t` arithmetic; `none` is a loop that has not ended. -/
def tableFindLoop (rootNode : Node) (key : UInt32) : Nat → Nat → Nat → Option Nat
  | 0, _, _ => none
  | fuel + 1, minIndex, onePastMaxIndex =>
      if onePastMaxIndex ≠ minIndex then
        let index := (minIndex + onePastMaxIndex) % 2 ^ 32 / 2
        let keyAtIndex := leafNodeKey rootNode index
        if key = keyAtIndex then some index
        else if key < keyAtIndex then tableFindLoop rootNode key fuel minIndex index
        else tableFindLoop rootNode key fuel ((index + 1) % 2 ^ 32) onePastMaxIndex
      else some minIndex

/-- The `cell_num` of the cursor `table_find` returns. -/
def tableFind (rootNode : Node) (key : UInt32) : Option Nat :=
  let numCells := leafNodeNumCells rootNode
  tableFindLoop rootNode key (numCells + 1) 0 numCells

/-- The loop that makes room: cell `i - 1` is copied over cell `i`, from the last one down. -/
def shiftCells (node : Node) (cellNum : Nat) : Nat → Node
  | 0 => node
  | i + 1 =>
      if i + 1 > cellNum then
        shiftCells
          (node.write (leafNodeCell (i + 1))
            (read node.bytes (leafNodeCell i) leafNodeCellSize)) cellNum i
      else node

def leafNodeInsert (node : Node) (cellNum : Nat) (key : UInt32) (value : Row) : Node :=
  let numCells := leafNodeNumCells node
  if numCells ≥ leafNodeMaxCells then node
  else
    let node := if cellNum < numCells then shiftCells node cellNum numCells else node
    let node := node.writeLE leafNodeNumCellsOffset 4 (leafNodeNumCells node + 1)
    let node := node.writeLE (leafNodeCell cellNum) leafNodeKeySize key.toNat
    node.write (leafNodeCell cellNum + leafNodeKeySize) value.data

/-- An insert at the cursor `table_find` returns for its key. -/
def insertAtCursor (node : Node) (row : UInt32 × Row) : Option Node :=
  (tableFind node row.1).map fun cellNum => leafNodeInsert node cellNum row.1 row.2

def insertAll (node : Node) (rows : List (UInt32 × Row)) : Option Node :=
  rows.foldlM insertAtCursor node

/-! ## The cells of a page -/

def cellAt (node : Node) (i : Nat) : Cell where
  key := leafNodeKey node i
  value := leafNodeValue node i

/-- The cells in page order. -/
def cells (node : Node) : List Cell :=
  (List.range (leafNodeNumCells node)).map (cellAt node)

@[simp]
theorem length_cells (node : Node) : (cells node).length = leafNodeNumCells node := by
  rw [cells, List.length_map, List.length_range]

theorem getElem?_cells (node : Node) (i : Nat) :
    (cells node)[i]? = if i < leafNodeNumCells node then some (cellAt node i) else none := by
  rw [cells, List.getElem?_map]
  by_cases hi : i < leafNodeNumCells node
  · rw [if_pos hi, List.getElem?_range hi, Option.map_some]
  · rw [if_neg hi, List.getElem?_eq_none (by rw [List.length_range]; omega), Option.map_none]

section Writes

variable {node : Node} {i j w v pos : Nat} {data : List UInt8}

theorem leafNodeNumCells_write (hpos : leafNodeHeaderSize ≤ pos) :
    leafNodeNumCells (node.write pos data) = leafNodeNumCells node := by
  refine readLE_write_of_disjoint (Or.inl ?_)
  rw [leafNodeHeaderSize] at hpos
  rw [leafNodeNumCellsOffset]
  omega

theorem leafNodeNumCells_writeLE (hpos : leafNodeHeaderSize ≤ pos) :
    leafNodeNumCells (node.writeLE pos w v) = leafNodeNumCells node :=
  leafNodeNumCells_write hpos

/-- A write outside a cell leaves it alone. -/
theorem cellAt_write_of_disjoint
    (hd : pos + data.length ≤ leafNodeCell i ∨ leafNodeCell (i + 1) ≤ pos) :
    cellAt (node.write pos data) i = cellAt node i := by
  have hnext : leafNodeCell (i + 1) = leafNodeCell i + (leafNodeKeySize + internalRowSize) := by
    rw [leafNodeCell, leafNodeCell, Nat.succ_mul, leafNodeCellSize, Nat.add_assoc]
  have hkey : leafNodeKey (node.write pos data) i = leafNodeKey node i :=
    congrArg UInt32.ofNat (readLE_write_of_disjoint (by omega))
  have hvalue : leafNodeValue (node.write pos data) i = leafNodeValue node i :=
    read_write_of_disjoint (by omega)
  rw [cellAt, cellAt, hkey, hvalue]

theorem cellAt_writeLE_of_disjoint
    (hd : pos + w ≤ leafNodeCell i ∨ leafNodeCell (i + 1) ≤ pos) :
    cellAt (node.writeLE pos w v) i = cellAt node i :=
  cellAt_write_of_disjoint (by rwa [ByteCodec.length_leBytes])

theorem leafNodeHeaderSize_le (i : Nat) : leafNodeHeaderSize ≤ leafNodeCell i :=
  Nat.le_add_right _ _

theorem leafNodeCell_mono (h : i < j) : leafNodeCell (i + 1) ≤ leafNodeCell j :=
  Nat.add_le_add_left (Nat.mul_le_mul_right _ h) _

/-- The cells a leaf can have lie inside its page. -/
theorem leafNodeCell_le (node : Node) (hi : i < leafNodeMaxCells) :
    leafNodeCell i + leafNodeCellSize ≤ node.bytes.length := by
  have hmax : leafNodeMaxCells = 7 := by decide
  have hsize : leafNodeCellSize = 516 := by decide
  rw [node.size, leafNodeCell, leafNodeHeaderSize, hsize]
  omega

/-- A copied cell reads as the one it was copied from. -/
theorem cellAt_copy (hi : i < leafNodeMaxCells) (hj : j < leafNodeMaxCells) :
    cellAt
        (node.write (leafNodeCell i) (read node.bytes (leafNodeCell j) leafNodeCellSize)) i =
      cellAt node j := by
  have hlen : (read node.bytes (leafNodeCell j) leafNodeCellSize).length =
      leafNodeCellSize := length_read (leafNodeCell_le node hj)
  have hroom := leafNodeCell_le node hi
  have hread : ∀ off l, off + l ≤ leafNodeCellSize →
      read (Buffer.write node.bytes (leafNodeCell i)
          (read node.bytes (leafNodeCell j) leafNodeCellSize)) (leafNodeCell i + off) l =
        read node.bytes (leafNodeCell j + off) l := by
    intro off l hoff
    rw [read_write_inside (by rw [hlen]; exact hroom) (Nat.le_add_right _ _) (by rw [hlen]; omega),
      Nat.add_sub_cancel_left, read_read hoff]
  have hkey := hread 0 leafNodeKeySize (by decide)
  have hvalue := hread leafNodeKeySize internalRowSize le_rfl
  have hkey' : leafNodeKey
      (node.write (leafNodeCell i) (read node.bytes (leafNodeCell j) leafNodeCellSize)) i =
        leafNodeKey node j := congrArg (fun bs => UInt32.ofNat (ByteCodec.leNat bs)) hkey
  rw [cellAt, cellAt, hkey']
  exact congrArg (Cell.mk _) hvalue

end Writes

/-! ## Making room -/

theorem leafNodeNumCells_shiftCells (node : Node) (cellNum n : Nat) :
    leafNodeNumCells (shiftCells node cellNum n) = leafNodeNumCells node := by
  induction n generalizing node with
  | zero => rfl
  | succ n ih =>
      rw [shiftCells]
      by_cases hmore : n + 1 > cellNum
      · rw [if_pos hmore, ih, leafNodeNumCells_write (leafNodeHeaderSize_le _)]
      · rw [if_neg hmore]

/-- Every cell from the cursor on has moved one place up. -/
theorem cellAt_shiftCells (node : Node) (cellNum n : Nat) (hn : n < leafNodeMaxCells) (i : Nat) :
    cellAt (shiftCells node cellNum n) i =
      if cellNum < i ∧ i ≤ n then cellAt node (i - 1) else cellAt node i := by
  induction n generalizing node with
  | zero =>
      rw [shiftCells, if_neg (by omega)]
  | succ n ih =>
      rw [shiftCells]
      by_cases hmore : n + 1 > cellNum
      · rw [if_pos hmore, ih _ (by omega)]
        have hlen : (read node.bytes (leafNodeCell n) leafNodeCellSize).length =
            leafNodeCellSize := length_read (leafNodeCell_le node (by omega))
        have hend : leafNodeCell (n + 1) + leafNodeCellSize = leafNodeCell (n + 2) := by
          rw [leafNodeCell, leafNodeCell, Nat.succ_mul (n + 1), Nat.add_assoc]
        -- Only cell `n + 1` was written in this round.
        have hother : ∀ k, k ≠ n + 1 →
            cellAt (node.write (leafNodeCell (n + 1))
              (read node.bytes (leafNodeCell n) leafNodeCellSize)) k = cellAt node k := by
          intro k hk
          refine cellAt_write_of_disjoint ?_
          rw [hlen, hend]
          rcases Nat.lt_or_gt_of_ne hk with hlt | hgt
          · exact Or.inr (leafNodeCell_mono hlt)
          · exact Or.inl (leafNodeCell_mono hgt)
        by_cases hi : i = n + 1
        · rw [hi, if_neg (by omega), if_pos ⟨hmore, le_rfl⟩,
            cellAt_copy hn (by omega), Nat.add_sub_cancel]
        · by_cases hin : cellNum < i ∧ i ≤ n
          · rw [if_pos hin, if_pos ⟨hin.1, by omega⟩, hother _ (by omega)]
          · rw [if_neg hin, if_neg (by omega), hother _ hi]
      · rw [if_neg hmore, if_neg (by omega)]

/-! ## The insert is an insert into the list of cells -/

section Insert

variable {node : Node} {cellNum : Nat} {key : UInt32} {value : Row}

/-- The key and the row of the new cell, written where there is room. -/
theorem cellAt_written (hcell : cellNum < leafNodeMaxCells) (i : Nat) :
    cellAt ((node.writeLE (leafNodeCell cellNum) leafNodeKeySize key.toNat).write
        (leafNodeCell cellNum + leafNodeKeySize) value.data) i =
      if i = cellNum then { key := key, value := value.data } else cellAt node i := by
  have hroom := leafNodeCell_le node hcell
  have hnext : leafNodeCell (cellNum + 1) = leafNodeCell cellNum + leafNodeCellSize := by
    rw [leafNodeCell, leafNodeCell, Nat.succ_mul, Nat.add_assoc]
  rw [leafNodeCellSize] at hroom hnext
  by_cases hi : i = cellNum
  · rw [if_pos hi, hi]
    have hkey : leafNodeKey ((node.writeLE (leafNodeCell cellNum) leafNodeKeySize key.toNat).write
        (leafNodeCell cellNum + leafNodeKeySize) value.data) cellNum = key := by
      have hread : readLE (Buffer.write (Buffer.writeLE node.bytes (leafNodeCell cellNum)
          leafNodeKeySize key.toNat) (leafNodeCell cellNum + leafNodeKeySize) value.data)
            (leafNodeCell cellNum) leafNodeKeySize = key.toNat % 256 ^ leafNodeKeySize := by
        rw [readLE_write_of_disjoint (Or.inl le_rfl), readLE_writeLE (by omega)]
      have hlt : key.toNat < 256 ^ leafNodeKeySize := key.toNat_lt
      rw [leafNodeKey]
      refine UInt32.toNat_inj.mp ?_
      have hsmall : key.toNat < 2 ^ 32 := key.toNat_lt
      rw [UInt32.toNat_ofNat']
      exact (congrArg (· % 2 ^ 32) (hread.trans (Nat.mod_eq_of_lt hlt))).trans
        (Nat.mod_eq_of_lt hsmall)
    have hvalue : leafNodeValue
        ((node.writeLE (leafNodeCell cellNum) leafNodeKeySize key.toNat).write
          (leafNodeCell cellNum + leafNodeKeySize) value.data) cellNum = value.data := by
      have hfits : leafNodeCell cellNum + leafNodeKeySize + value.data.length ≤
          (Buffer.writeLE node.bytes (leafNodeCell cellNum) leafNodeKeySize key.toNat).length := by
        rw [length_writeLE, value.size]
        omega
      have hread := read_write hfits
      rwa [value.size] at hread
    rw [cellAt, hkey, hvalue]
  · rw [if_neg hi, cellAt_write_of_disjoint, cellAt_writeLE_of_disjoint]
    · rcases Nat.lt_or_gt_of_ne hi with hlt | hgt
      · exact Or.inr (leafNodeCell_mono hlt)
      · have hmono := leafNodeCell_mono hgt
        omega
    · rw [value.size]
      rcases Nat.lt_or_gt_of_ne hi with hlt | hgt
      · have hmono := leafNodeCell_mono hlt
        omega
      · have hmono := leafNodeCell_mono hgt
        omega

/-- A write into the header leaves the cells alone. -/
theorem cellAt_setNumCells (node : Node) (v i : Nat) :
    cellAt (node.writeLE leafNodeNumCellsOffset 4 v) i = cellAt node i :=
  cellAt_writeLE_of_disjoint (Or.inl (leafNodeHeaderSize_le i))

theorem leafNodeNumCells_leafNodeInsert (hroom : leafNodeNumCells node < leafNodeMaxCells) :
    leafNodeNumCells (leafNodeInsert node cellNum key value) = leafNodeNumCells node + 1 := by
  have hmax : leafNodeMaxCells = 7 := by decide
  have hset : ∀ node' : Node, leafNodeNumCells node' = leafNodeNumCells node →
      leafNodeNumCells
          (node'.writeLE leafNodeNumCellsOffset 4 (leafNodeNumCells node' + 1)) =
        leafNodeNumCells node + 1 := by
    intro node' heq
    have hread : readLE (Buffer.writeLE node'.bytes leafNodeNumCellsOffset 4
        (leafNodeNumCells node' + 1)) leafNodeNumCellsOffset 4 =
          (leafNodeNumCells node' + 1) % 256 ^ 4 :=
      readLE_writeLE (by rw [node'.size, leafNodeNumCellsOffset]; omega)
    rw [leafNodeNumCells]
    exact hread.trans (by rw [heq]; omega)
  rw [leafNodeInsert, if_neg (by omega)]
  dsimp only
  rw [leafNodeNumCells_write (Nat.le_trans (leafNodeHeaderSize_le cellNum) (Nat.le_add_right _ _)),
    leafNodeNumCells_writeLE (leafNodeHeaderSize_le cellNum)]
  refine hset _ ?_
  split
  · exact leafNodeNumCells_shiftCells node cellNum _
  · rfl

theorem cellAt_leafNodeInsert (hroom : leafNodeNumCells node < leafNodeMaxCells)
    (hle : cellNum ≤ leafNodeNumCells node) (i : Nat) :
    cellAt (leafNodeInsert node cellNum key value) i =
      if i = cellNum then { key := key, value := value.data }
      else if cellNum < i ∧ i ≤ leafNodeNumCells node then cellAt node (i - 1)
      else cellAt node i := by
  rw [leafNodeInsert, if_neg (by omega)]
  dsimp only
  rw [cellAt_written (by omega), cellAt_setNumCells]
  by_cases hi : i = cellNum
  · rw [if_pos hi, if_pos hi]
  · rw [if_neg hi, if_neg hi]
    by_cases hlast : cellNum < leafNodeNumCells node
    · rw [if_pos hlast, cellAt_shiftCells node cellNum _ hroom]
    · rw [if_neg hlast, if_neg (by omega)]

theorem cells_leafNodeInsert (hroom : leafNodeNumCells node < leafNodeMaxCells)
    (hle : cellNum ≤ leafNodeNumCells node) :
    cells (leafNodeInsert node cellNum key value) =
      (cells node).insertIdx cellNum { key := key, value := value.data } := by
  refine List.ext_getElem? fun i => ?_
  rw [getElem?_cells, leafNodeNumCells_leafNodeInsert hroom, cellAt_leafNodeInsert hroom hle,
    List.getElem?_insertIdx, getElem?_cells, getElem?_cells, length_cells]
  rcases Nat.lt_trichotomy i cellNum with hlt | heq | hgt
  · have hold : i < leafNodeNumCells node := by omega
    have hnew : i < leafNodeNumCells node + 1 := by omega
    have hout : ¬ (cellNum < i ∧ i ≤ leafNodeNumCells node) := by omega
    rw [if_pos hnew, if_neg (Nat.ne_of_lt hlt), if_neg hout, if_pos hlt, if_pos hold]
  · have hnew : i < leafNodeNumCells node + 1 := by omega
    have hlast : i ≤ leafNodeNumCells node := by omega
    rw [if_pos hnew, if_pos heq, if_neg (by omega : ¬ i < cellNum), if_pos heq, if_pos hlast]
  · rw [if_neg (by omega : ¬ i < cellNum), if_neg (by omega : ¬ i = cellNum),
      if_neg (by omega : ¬ i = cellNum)]
    by_cases hin : i < leafNodeNumCells node + 1
    · have hold : i - 1 < leafNodeNumCells node := by omega
      have hlast : i ≤ leafNodeNumCells node := by omega
      rw [if_pos hin, if_pos ⟨hgt, hlast⟩, if_pos hold]
    · have hold : ¬ i - 1 < leafNodeNumCells node := by omega
      rw [if_neg hin, if_neg hold]

/-- The page refines the list of `BTree`. -/
theorem cells_leafNodeInsert_eq (hle : cellNum ≤ leafNodeNumCells node) :
    cells (leafNodeInsert node cellNum key value) =
      (Storage.leafNodeInsert { cells := cells node } cellNum key value.data).cells := by
  rw [Storage.leafNodeInsert, length_cells]
  by_cases hfull : leafNodeNumCells node ≥ leafNodeMaxCells
  · rw [if_pos hfull, leafNodeInsert, if_pos hfull]
  · rw [if_neg hfull, cells_leafNodeInsert (by omega) hle]

end Insert

/-! ## Searching sorted cells with repetitions -/

/-- The keys of the cells do not fall. -/
def SortedKeys (cells : List Cell) : Prop :=
  cells.Pairwise fun a b => a.key ≤ b.key

/-- A cell with the key, or the place of a key no cell has. -/
structure Lands (cells : List Cell) (key : UInt32) (r : Nat) : Prop where
  le : r ≤ cells.length
  hit : ∀ c ∈ cells, c.key = key → ∃ c', cells[r]? = some c' ∧ c'.key = key
  sorted : ∀ value, SortedKeys (cells.insertIdx r { key := key, value := value })

section Search

variable {node : Node} {key : UInt32} {lo hi : Nat}

theorem SortedKeys.le {cells : List Cell} (hs : SortedKeys cells) {i j : Nat} {a b : Cell}
    (hij : i < j) (hi : cells[i]? = some a) (hj : cells[j]? = some b) : a.key ≤ b.key := by
  obtain ⟨hilt, rfl⟩ := List.getElem?_eq_some_iff.mp hi
  obtain ⟨hjlt, rfl⟩ := List.getElem?_eq_some_iff.mp hj
  exact List.pairwise_iff_getElem.mp hs i j hilt hjlt hij

/-- Inserting over a cell with the key keeps the order. -/
theorem lands_hit {cells : List Cell} (hs : SortedKeys cells) {r : Nat} {c : Cell}
    (hc : cells[r]? = some c) (hkey : c.key = key) : Lands cells key r where
  le := Nat.le_of_lt (List.getElem?_eq_some_iff.mp hc).1
  hit _ _ _ := ⟨c, hc, hkey⟩
  sorted value := by
    refine pairwise_insertIdx hs r (fun j b hj hb => ?_) fun j b hj hb => ?_
    · have hle := hs.le hj hb hc
      rwa [hkey] at hle
    · rcases Nat.eq_or_lt_of_le hj with rfl | hlt
      · rw [hc] at hb
        cases hb
        exact UInt32.le_of_eq hkey.symm
      · have hle := hs.le hlt hc hb
        rwa [hkey] at hle

/-- Inserting between the smaller and the larger keys keeps the order. -/
theorem lands_gap {cells : List Cell} (hs : SortedKeys cells) {r : Nat} (hle : r ≤ cells.length)
    (hbefore : ∀ i c, i < r → cells[i]? = some c → c.key < key)
    (hafter : ∀ i c, r ≤ i → cells[i]? = some c → key < c.key) : Lands cells key r where
  le := hle
  hit c hc hkey := by
    obtain ⟨i, hi⟩ := List.getElem?_of_mem hc
    rcases Nat.lt_or_ge i r with hlt | hge
    · exact absurd hkey (UInt32.ne_of_lt (hbefore i c hlt hi))
    · exact absurd hkey.symm (UInt32.ne_of_lt (hafter i c hge hi))
  sorted value :=
    pairwise_insertIdx hs r (fun j b hj hb => UInt32.le_of_lt (hbefore j b hj hb))
      fun j b hj hb => UInt32.le_of_lt (hafter j b hj hb)

/-- Each round halves the range, so that the loop ends, and the range keeps the smaller keys on
its left and the larger ones on its right. -/
theorem tableFindLoop_lands (hs : SortedKeys (cells node))
    (hcount : leafNodeNumCells node ≤ leafNodeMaxCells) (fuel lo hi : Nat)
    (hfuel : hi - lo < fuel) (hle : lo ≤ hi) (hhi : hi ≤ leafNodeNumCells node)
    (hbefore : ∀ i c, i < lo → (cells node)[i]? = some c → c.key < key)
    (hafter : ∀ i c, hi ≤ i → (cells node)[i]? = some c → key < c.key) :
    ∃ r, tableFindLoop node key fuel lo hi = some r ∧ Lands (cells node) key r := by
  have hmax : leafNodeMaxCells = 7 := by decide
  induction fuel generalizing lo hi with
  | zero => exact absurd hfuel (Nat.not_lt_zero _)
  | succ fuel ih =>
      rw [tableFindLoop]
      by_cases hempty : hi = lo
      · rw [if_neg (not_not_intro hempty)]
        have hend : lo ≤ (cells node).length := by
          rw [length_cells]
          omega
        exact ⟨lo, rfl, lands_gap hs hend hbefore fun i c hi' => hafter i c (hempty ▸ hi')⟩
      · rw [if_pos hempty]
        obtain ⟨index, hindex⟩ : ∃ index, index = (lo + hi) % 2 ^ 32 / 2 := ⟨_, rfl⟩
        have hc : (cells node)[index]? = some (cellAt node index) := by
          rw [getElem?_cells, if_pos (by omega)]
        have hnext : (index + 1) % 2 ^ 32 = index + 1 := by omega
        dsimp only
        rw [← hindex, hnext]
        by_cases heq : key = leafNodeKey node index
        · rw [if_pos heq]
          exact ⟨index, rfl, lands_hit hs hc heq.symm⟩
        · rw [if_neg heq]
          by_cases hlt : key < leafNodeKey node index
          · rw [if_pos hlt]
            refine ih lo index (by omega) (by omega) (by omega) hbefore fun i a hi' ha => ?_
            rcases Nat.eq_or_lt_of_le hi' with rfl | hmore
            · rw [hc] at ha
              cases ha
              exact hlt
            · exact UInt32.lt_of_lt_of_le hlt (hs.le hmore hc ha)
          · rw [if_neg hlt]
            have hgt : leafNodeKey node index < key :=
              UInt32.lt_of_le_of_ne (UInt32.not_lt.mp hlt) (Ne.symm heq)
            refine ih (index + 1) hi (by omega) (by omega) hhi (fun i a hi' ha => ?_) hafter
            rcases Nat.eq_or_lt_of_le (Nat.le_of_lt_succ hi') with rfl | hless
            · rw [hc] at ha
              cases ha
              exact hgt
            · exact UInt32.lt_of_le_of_lt (hs.le hless ha hc) hgt

theorem tableFind_lands (hs : SortedKeys (cells node))
    (hcount : leafNodeNumCells node ≤ leafNodeMaxCells) (key : UInt32) :
    ∃ r, tableFind node key = some r ∧ Lands (cells node) key r :=
  tableFindLoop_lands hs hcount _ 0 (leafNodeNumCells node) (by omega) (Nat.zero_le _) le_rfl
    (fun i _ hi => absurd hi (Nat.not_lt_zero i))
    (fun i _ hi hc => by
      rw [List.getElem?_eq_none (by rwa [length_cells])] at hc
      cases hc)

end Search

/-! ## Runs from a new leaf -/

/-- A leaf in order, with no more cells than it has room for. -/
structure WellFormed (node : Node) : Prop where
  sorted : SortedKeys (cells node)
  count : leafNodeNumCells node ≤ leafNodeMaxCells

theorem wellFormed_dbOpen (page : Node) : WellFormed (dbOpen page) := by
  have hcount : leafNodeNumCells (dbOpen page) = 0 := by
    have hread : ∀ node : Node, readLE (Buffer.writeLE (Buffer.writeLE node.bytes
        leafNodeNumCellsOffset 4 0) isRootOffset 1 1) leafNodeNumCellsOffset 4 = 0 := by
      intro node
      rw [readLE_writeLE_of_disjoint (Or.inr (by decide)),
        readLE_writeLE (by rw [node.size, leafNodeNumCellsOffset]; omega), Nat.zero_mod]
    exact hread _
  refine ⟨?_, by omega⟩
  rw [cells, hcount]
  exact List.Pairwise.nil

/-- What the cursor of `table_find` is worth in a leaf, and what an insert there does. -/
structure SearchesAndInserts (node : Node) : Prop where
  find : ∀ key, ∃ r, tableFind node key = some r ∧ Lands (cells node) key r ∧
    (leafNodeNumCells node < leafNodeMaxCells → ∀ value : Row,
      cells (leafNodeInsert node r key value) =
        (cells node).insertIdx r { key := key, value := value.data })

theorem WellFormed.searchesAndInserts {node : Node} (hw : WellFormed node) :
    SearchesAndInserts node where
  find key := by
    obtain ⟨r, hr, hlands⟩ := tableFind_lands hw.sorted hw.count key
    refine ⟨r, hr, hlands, fun hroom value => cells_leafNodeInsert hroom ?_⟩
    rw [← length_cells]
    exact hlands.le

/-- An insert at the cursor keeps the leaf in order; a full one stays as it is. -/
theorem WellFormed.insertAtCursor {node : Node} (hw : WellFormed node) (row : UInt32 × Row) :
    ∃ node', insertAtCursor node row = some node' ∧ WellFormed node' := by
  obtain ⟨r, hr, hlands⟩ := tableFind_lands hw.sorted hw.count row.1
  refine ⟨leafNodeInsert node r row.1 row.2, by rw [LeafPage.insertAtCursor, hr]; rfl, ?_⟩
  by_cases hfull : leafNodeNumCells node ≥ leafNodeMaxCells
  · rw [leafNodeInsert, if_pos hfull]
    exact hw
  · have hroom : leafNodeNumCells node < leafNodeMaxCells := by omega
    have hle : r ≤ leafNodeNumCells node := by
      rw [← length_cells]
      exact hlands.le
    refine ⟨?_, ?_⟩
    · rw [cells_leafNodeInsert hroom hle]
      exact hlands.sorted _
    · rw [leafNodeNumCells_leafNodeInsert hroom]
      exact hroom

theorem WellFormed.insertAll {node : Node} (hw : WellFormed node) (rows : List (UInt32 × Row)) :
    ∃ node', insertAll node rows = some node' ∧ WellFormed node' := by
  induction rows generalizing node with
  | nil => exact ⟨node, rfl, hw⟩
  | cons row rows ih =>
      obtain ⟨next, hnext, hw'⟩ := hw.insertAtCursor row
      obtain ⟨node', hrest, hw''⟩ := ih hw'
      refine ⟨node', ?_, hw''⟩
      rw [LeafPage.insertAll, List.foldlM_cons, hnext]
      exact hrest

/-- Whatever is put into a new leaf: every search ended, the keys are in order, and the next
search finds its key or the place of it, where an insert moves no other cell out of order. -/
theorem leaf_insertAll (page : Node) (rows : List (UInt32 × Row)) :
    ∃ node, insertAll (dbOpen page) rows = some node ∧ SortedKeys (cells node) ∧
      SearchesAndInserts node := by
  obtain ⟨node, hrun, hw⟩ := (wellFormed_dbOpen page).insertAll rows
  exact ⟨node, hrun, hw.sorted, hw.searchesAndInserts⟩

end LeafPage
end Storage
end InventixDB
