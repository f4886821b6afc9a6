import InventixDB.Storage.KVStore

/-!
# IndexScan — reading a secondary index

A scan starts at the first node whose value is not below the one asked for and follows the bottom
level of the skip list until its callback ends it.
-/

namespace InventixDB
namespace Storage

variable {n : Nat}

/-- The first index of a table on a column. -/
def kvFindIndex (store : KVStore n) (table col : CStr) : Option Index :=
  store.indexes.find? fun idx => idx.table = table && idx.column = col

/-- `kv_has_index` -/
def kvHasIndex (store : KVStore n) (table col : CStr) : Bool :=
  (kvFindIndex store table col).isSome

/-- The nodes from `kv_search_index_range` on. -/
def kvSearchIndexRange (store : KVStore n) (table col val : CStr) : List (CStr × CStr) :=
  match kvFindIndex store table col with
  | none => []
  | some idx => idx.nodes.dropWhile fun node => node.1.val < val.val

/-- The nodes `kv_scan_index_range` passes to its callback while that says to go on: for `=` the
nodes of the value asked for, for `>` those behind them. -/
def scannedNodes (store : KVStore n) (table col startVal : CStr) (inclusive : Bool) :
    List (CStr × CStr) :=
  let nodes := kvSearchIndexRange store table col startVal
  if inclusive then nodes.takeWhile fun node => node.1 = startVal
  else nodes.filter fun node => node.1 ≠ startVal

/-- The loop of `kv_scan_index_range`; a callback answers whether to go on. -/
def scanNodes {σ : Type*} (startVal : CStr) (inclusive : Bool)
    (cb : CStr → CStr → σ → Option (σ × Bool)) : List (CStr × CStr) → σ → Option σ
  | [], ctx => some ctx
  | node :: nodes, ctx =>
      if !inclusive && node.1 = startVal then scanNodes startVal inclusive cb nodes ctx
      else
        match cb node.2 node.1 ctx with
        | none => none
        | some (ctx, true) => scanNodes startVal inclusive cb nodes ctx
        | some (ctx, false) => some ctx

/-- `kv_scan_index_range` -/
def kvScanIndexRange {σ : Type*} (store : KVStore n) (table col startVal : CStr)
    (inclusive : Bool) (cb : CStr → CStr → σ → Option (σ × Bool)) (ctx : σ) : Option σ :=
  scanNodes startVal inclusive cb (kvSearchIndexRange store table col startVal) ctx

end Storage
end InventixDB
