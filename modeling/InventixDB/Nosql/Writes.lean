import InventixDB.Nosql.Documents

/-!
# Writes — finding, updating and deleting documents

Of a query only the `_id` is read, as text; the other fields are for later.  An update is written
behind the text of the document that is found, into 4096 bytes.
-/

namespace InventixDB
namespace Nosql

open Lib
open Storage

variable {n : Nat} [NeZero n]

/-! ## Finding -/

structure FindDocsCtx where
  db : CStr
  collection : CStr
  result : List Document
  count : Nat
  limit : Nat
  skip : Nat
  skipped : Nat

def docPrefix (db collection : CStr) : CStr :=
  CStr.snprintf 256 (CStr.lit "DB:" ++ db ++ CStr.lit ":DOC:" ++ collection ++ CStr.lit ":")

/-- A document under a key of the collection. -/
def isDocument (db collection key : CStr) (val : Value) : Bool :=
  CStr.startsWith (docPrefix db collection) key && val.type = .json

/-- The document at a value; `seed` is for the id it may lack. -/
def documentAt (val : Value) (seed : IdSeed) (now : UInt64) : Document :=
  nosqlDocCreate (CStr.ofBytes val.data) seed now

/-- `simple_match(json, NULL)` is true for each document. -/
def findDocsCallback (seeds : Nat → IdSeed) (now : UInt64) (key : CStr) (val : Value)
    (fctx : FindDocsCtx) : FindDocsCtx :=
  if isDocument fctx.db fctx.collection key val then
    if 0 < fctx.limit ∧ fctx.limit ≤ fctx.count then fctx
    else if fctx.skipped < fctx.skip then { fctx with skipped := fctx.skipped + 1 }
    else
      { fctx with
        result := fctx.result ++ [documentAt val (seeds fctx.count) now]
        count := fctx.count + 1 }
  else fctx

/-- The query is not used. -/
def nosqlFind (store : KVStore n) (db collection _query : CStr) (seeds : Nat → IdSeed)
    (now : UInt64) : List Document :=
  (kvIterate store (findDocsCallback seeds now)
    { db := db
      collection := collection
      result := []
      count := 0
      limit := 0
      skip := 0
      skipped := 0 }).result

def nosqlFindOne (store : KVStore n) (db collection query : CStr) (seeds : Nat → IdSeed)
    (now : UInt64) : Option Document :=
  match jsonGetString query (CStr.lit "_id") with
  | some id =>
      match kvGet store (makeDocKey db collection id) with
      | some val => if val.type = .json then some (documentAt val (seeds 0) now) else none
      | none => none
  | none => (nosqlFind store db collection query seeds now).head?

/-! ## Updating -/

/-- The text of the document with the update behind it, before it is cut to the buffer. -/
def mergedText (doc update : CStr) : CStr :=
  CStr.lit "\x7b" ++ jsonUnwrap doc ++ CStr.lit "," ++ jsonUnwrap update ++ CStr.lit "\x7d"

def nosqlUpdateOne (store : KVStore n) (db collection query update : CStr) (seeds : Nat → IdSeed)
    (now : UInt64) : KVStore n × Nat :=
  match nosqlFindOne store db collection query seeds now with
  | none => (store, 0)
  | some doc =>
      let doc := { doc with
        version := doc.version + 1
        updatedAt := now
        jsonData := CStr.snprintf 4096 (mergedText doc.jsonData update) }
      (putText store (makeDocKey db collection doc.id) doc.jsonData, 1)

/-- The query that is made for an id. -/
def idQuery (id : CStr) : CStr :=
  CStr.snprintf 128 (CStr.lit "\x7b\"_id\":\"" ++ id ++ CStr.lit "\"\x7d")

/-- A call for the id of each document, one after another; the `i`-th has the seed `seeds i`. -/
def forEachId (call : KVStore n → CStr → IdSeed → KVStore n × Nat) (seeds : Nat → IdSeed) :
    List Document → KVStore n × Nat → KVStore n × Nat
  | [], r => r
  | doc :: docs, r =>
      let r' := call r.1 (idQuery doc.id) (seeds 0)
      forEachId call (fun i => seeds (i + 1)) docs (r'.1, r.2 + r'.2)

def nosqlUpdateMany (store : KVStore n) (db collection query update : CStr)
    (seeds : Nat → Nat → IdSeed) (now : UInt64) : KVStore n × Nat :=
  let list := nosqlFind store db collection query (seeds 0) now
  forEachId
    (fun store query seed => nosqlUpdateOne store db collection query update (fun _ => seed) now)
    (seeds 1) list (store, 0)

/-- `seeds` has the seeds of each of the look-ups. -/
def nosqlUpsert (store : KVStore n) (db collection query json : CStr) (seeds : Nat → Nat → IdSeed)
    (now : UInt64) : KVStore n × Option Document :=
  match nosqlFindOne store db collection query (seeds 0) now with
  | some _ =>
      let r := nosqlUpdateOne store db collection query json (seeds 1) now
      (r.1, nosqlFindOne r.1 db collection query (seeds 2) now)
  | none =>
      let r := nosqlInsertOne store db collection json (seeds 1 0) now
      (r.2, some r.1)

/-- `execute_nosql_upsert`, with its empty filter. -/
def executeNosqlUpsert (store : KVStore n) (currentDb collection json : CStr)
    (seeds : Nat → Nat → IdSeed) (now : UInt64) : KVStore n × Option Document :=
  nosqlUpsert store currentDb collection (CStr.lit "\x7b\x7d") json seeds now

/-! ## Deleting -/

def nosqlDeleteOne (store : KVStore n) (db collection query : CStr) (seeds : Nat → IdSeed)
    (now : UInt64) : KVStore n × Nat :=
  match nosqlFindOne store db collection query seeds now with
  | none => (store, 0)
  | some doc => (kvDelete store (makeDocKey db collection doc.id), 1)

def nosqlDeleteMany (store : KVStore n) (db collection query : CStr) (seeds : Nat → Nat → IdSeed)
    (now : UInt64) : KVStore n × Nat :=
  let list := nosqlFind store db collection query (seeds 0) now
  forEachId (fun store query seed => nosqlDeleteOne store db collection query (fun _ => seed) now)
    (seeds 1) list (store, 0)

end Nosql
end InventixDB
