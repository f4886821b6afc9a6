import InventixDB.Lib.PagedFile
import Mathlib.Data.List.FinRange
import Mathlib.Logic.Function.Basic

/-!
# BufferPool — ten frames in front of a file of pages

A page is read into a frame when it is asked for and pinned there.  Unpinned pages make way for
others, the one used longest ago first, and are written back if they are marked dirty.
-/

namespace InventixDB
namespace Storage

open Lib

/-! ## The pager -/

/-- `TABLE_MAX_PAGES` -/
abbrev tableMaxPages : Nat := 100

/-- The page numbers the pager reads. -/
abbrev PageNum := Fin tableMaxPages

/-- The contents of a page of `PAGE_SIZE` bytes. -/
abbrev PageData := Vector UInt8 4096

/-- A page cut short by the end of the file is filled up with zeros. -/
def pagerRead (file : List UInt8) (pageNum : PageNum) : PageData :=
  PagedFile.readPage 0 4096 pageNum file

def pagerWrite (file : List UInt8) (pageNum : PageNum) (data : PageData) : List UInt8 :=
  PagedFile.writePage 0 pageNum data file

/-! ## The pool -/

/-- `POOL_SIZE` -/
def poolSize : Nat := 10

/-- The greatest `int`; counting on from it is undefined. -/
def intMax : Nat := 2 ^ 31 - 1

/-- An empty frame has no page, where the source has `UINT32_MAX` and `NULL`. -/
structure Frame where
  page : Option (PageNum × PageData)
  isDirty : Bool
  pinCount : Nat
  lastUsed : Nat

structure BufferPool where
  frames : Fin poolSize → Frame
  clock : Nat
  file : List UInt8

def bufferPoolInit (file : List UInt8) : BufferPool :=
  { frames := fun _ => { page := none, isDirty := false, pinCount := 0, lastUsed := 0 }
    clock := 0
    file }

def BufferPool.setFrame (pool : BufferPool) (i : Fin poolSize) (frame : Frame) : BufferPool :=
  { pool with frames := Function.update pool.frames i frame }

def Frame.holds (frame : Frame) (pageId : PageNum) : Bool :=
  frame.page.any fun p => p.1 == pageId

/-- The first frame with the page. -/
def BufferPool.find (pool : BufferPool) (pageId : PageNum) : Option (Fin poolSize) :=
  (List.finRange poolSize).find? fun i => (pool.frames i).holds pageId

def BufferPool.firstEmpty (pool : BufferPool) : Option (Fin poolSize) :=
  (List.finRange poolSize).find? fun i => (pool.frames i).page.isNone

/-- One turn of the search for the unpinned frame used longest ago. -/
def lruStep (frames : Fin poolSize → Frame) (best : Option (Fin poolSize) × Nat)
    (i : Fin poolSize) : Option (Fin poolSize) × Nat :=
  if (frames i).pinCount = 0 ∧ (frames i).lastUsed < best.2 then (some i, (frames i).lastUsed)
  else best

def BufferPool.lru (pool : BufferPool) : Option (Fin poolSize) :=
  ((List.finRange poolSize).foldl (lruStep pool.frames) (none, intMax)).1

/-- Write the page of a frame to the file if it is dirty. -/
def BufferPool.writeBack (pool : BufferPool) (i : Fin poolSize) : BufferPool :=
  match (pool.frames i).page with
  | some (pageId, data) =>
      if (pool.frames i).isDirty then { pool with file := pagerWrite pool.file pageId data }
      else pool
  | none => pool

/-- Without an unpinned frame there is none to evict. -/
def bufferPoolEvict (pool : BufferPool) : Option (Fin poolSize × BufferPool) :=
  pool.lru.map fun i =>
    (i, (pool.writeBack i).setFrame i
      { pool.frames i with page := none, isDirty := false, pinCount := 0 })

/-- An empty frame, made by an eviction if there is no other. -/
def BufferPool.makeRoom (pool : BufferPool) : Option (Fin poolSize × BufferPool) :=
  match pool.firstEmpty with
  | some i => some (i, pool)
  | none => bufferPoolEvict pool

def BufferPool.tick (pool : BufferPool) : BufferPool :=
  { pool with clock := pool.clock + 1 }

/-- Read a page into a frame and pin it. -/
def BufferPool.load (pool : BufferPool) (slot : Fin poolSize) (pageId : PageNum) : BufferPool :=
  pool.setFrame slot
    { page := some (pageId, pagerRead pool.file pageId)
      isDirty := false
      pinCount := 1
      lastUsed := pool.clock }

/-- The page and the pool, or `NULL` if every frame is pinned; nothing at all if a counter runs
over. -/
def bufferPoolGetPage (pool : BufferPool) (pageId : PageNum) :
    Option (Option PageData × BufferPool) :=
  if pool.clock = intMax then none
  else
    match pool.tick.find pageId with
    | some i =>
        let frame := pool.tick.frames i
        if frame.pinCount = intMax then none
        else
          some (frame.page.map Prod.snd,
            pool.tick.setFrame i
              { frame with lastUsed := pool.tick.clock, pinCount := frame.pinCount + 1 })
    | none =>
        match pool.tick.makeRoom with
        | none => some (none, pool.tick)
        | some (slot, room) => some (some (pagerRead room.file pageId), room.load slot pageId)

/-- Change the first frame with the page, if there is one. -/
def BufferPool.modifyFrame (pool : BufferPool) (pageId : PageNum) (f : Frame → Frame) :
    BufferPool :=
  match pool.find pageId with
  | some i => pool.setFrame i (f (pool.frames i))
  | none => pool

def bufferPoolUnpin (pool : BufferPool) (pageId : PageNum) : BufferPool :=
  pool.modifyFrame pageId fun frame => { frame with pinCount := frame.pinCount - 1 }

def bufferPoolMarkDirty (pool : BufferPool) (pageId : PageNum) : BufferPool :=
  pool.modifyFrame pageId fun frame => { frame with isDirty := true }

/-- What a caller does through the pointer it was given. -/
def BufferPool.writeThrough (pool : BufferPool) (pageId : PageNum) (data : PageData) :
    BufferPool :=
  pool.modifyFrame pageId fun frame => { frame with page := some (pageId, data) }

/-- One turn of `buffer_pool_flush_all`. -/
def BufferPool.flushFrame (pool : BufferPool) (i : Fin poolSize) : BufferPool :=
  if (pool.frames i).page.isSome && (pool.frames i).isDirty then
    (pool.writeBack i).setFrame i { pool.frames i with isDirty := false }
  else pool

def bufferPoolFlushAll (pool : BufferPool) : BufferPool :=
  (List.finRange poolSize).foldl BufferPool.flushFrame pool

/-- The file a closed pool leaves behind. -/
def bufferPoolClose (pool : BufferPool) : List UInt8 :=
  (bufferPoolFlushAll pool).file

end Storage
end InventixDB
