import Mathlib.Data.List.Basic

/-!
# BTree — the single leaf page behind `kv_put`

The tree is one root leaf of fixed-size cells: splitting is not implemented, so a full leaf
refuses every insert.
-/

namespace InventixDB
namespace Storage

/-- `INTERNAL_ROW_SIZE` -/
def internalRowSize : Nat := 512

/-- `LEAF_NODE_MAX_CELLS`: 4096-byte pages, a 10-byte header and 4 + 512 bytes a cell. -/
def leafNodeMaxCells : Nat := (4096 - 10) / (4 + internalRowSize)

structure Cell where
  key : UInt32
  value : List UInt8
  deriving DecidableEq, Repr

/-- The cells of the root leaf, in page order. -/
structure BTreeTable where
  cells : List Cell
  deriving DecidableEq, Repr

/-- A `Row` buffer: zeroed, then filled with at most `sizeof(Row)` bytes of `data`. -/
def rowBuffer (data : List UInt8) : List UInt8 :=
  data.take internalRowSize ++ List.replicate (internalRowSize - data.length) 0

/-- The binary search of `table_find`; `fuel` bounds its halvings. -/
def tableFindLoop (cells : List Cell) (key : UInt32) : Nat → Nat → Nat → Nat
  | 0, minIndex, _ => minIndex
  | fuel + 1, minIndex, onePastMaxIndex =>
      if onePastMaxIndex = minIndex then minIndex
      else
        let index := (minIndex + onePastMaxIndex) / 2
        match cells[index]? with
        | none => minIndex
        | some cell =>
            if key = cell.key then index
            else if key < cell.key then tableFindLoop cells key fuel minIndex index
            else tableFindLoop cells key fuel (index + 1) onePastMaxIndex

/-- The cell number `table_find` leaves its cursor at. -/
def tableFind (table : BTreeTable) (key : UInt32) : Nat :=
  tableFindLoop table.cells key (table.cells.length + 1) 0 table.cells.length

def leafNodeInsert (table : BTreeTable) (cellNum : Nat) (key : UInt32) (value : List UInt8) :
    BTreeTable :=
  if table.cells.length ≥ leafNodeMaxCells then table
  else { cells := table.cells.insertIdx cellNum { key := key, value := value } }

end Storage
end InventixDB
