import InventixDB.Executor.Entries
import InventixDB.Lib.Runs
import InventixDB.Sql.Ast

/-!
# Distribution — which worker the master sends a statement to

A lookup by id goes to the worker its id hashes to.  An INSERT always goes to the first worker, and
a document to the next one in turn, so what is inserted need not be where it is looked for.
-/

namespace InventixDB
namespace Server

open Storage
open Executor
open Transaction
open Lib
open Lib.OpenAddressing

/-! ## Routing -/

/-- What the first byte of a node says its type is. -/
def nodeType : Sql.Expr → CStr
  | .binary _ _ _ => CStr.ofBytes [42]
  | .literal _ => CStr.ofBytes [44]
  | .identifier _ => CStr.ofBytes [45]
  | .subquery _ _ => CStr.ofBytes [47]

/-- What reading `data.literal.value` of a node yields.  For a comparison and for a subquery the
same bytes hold a pointer to a node, whose first byte is its type. -/
def literalValue : Sql.Expr → CStr
  | .binary left _ _ => nodeType left
  | .literal value => value
  | .identifier value => value
  | .subquery _ _ => CStr.ofBytes [2]

inductive Route
  | worker (target : Nat)
  | broadcast
  deriving DecidableEq

def distHashDjb2 (str : CStr) : UInt64 :=
  CStr.hash str

/-- `dist_hash_djb2(id) % g_worker_count` -/
def hashTarget (workerCount : Nat) (id : CStr) : Nat :=
  (distHashDjb2 id).toNat % workerCount

def routeWhere (workerCount : Nat) : Option Sql.Expr → Route
  | some (.binary left op (.literal id)) =>
      if literalValue left = CStr.lit "id" ∧ op = CStr.lit "=" then
        .worker (hashTarget workerCount id)
      else .broadcast
  | _ => .broadcast

/-- `dist_route_query`, with the round-robin counter it leaves; `none` where the `int` overflows. -/
def distRouteQuery (workerCount rr : Nat) : Sql.ASTNode → Option (Route × Nat)
  | .insert _ rows => some (if rows = [] then .broadcast else .worker 0, rr)
  | .select stmt => some (routeWhere workerCount stmt.whereClause, rr)
  | .delete _ whereClause => some (routeWhere workerCount whereClause, rr)
  | .docInsert _ _ =>
      if rr + 1 < 2 ^ 31 then some (.worker (rr % workerCount), rr + 1) else none
  | .docGet _ (some docId) => some (.worker (hashTarget workerCount docId), rr)
  | .docRemove _ docId => some (.worker (hashTarget workerCount docId), rr)
  | _ => some (.broadcast, rr)

/-! ## Statements -/

/-- The names of tables and collections are identifiers. -/
structure Name where
  text : CStr
  isWord : Sql.isWord text = true
  deriving DecidableEq

/-- The statements that insert, and the one that creates the tables for them. -/
inductive WriteStmt
  | createTable (tableName : Name) (columns : List ColumnDef)
  | insert (tableName : Name) (rows : List (List CStr))
  | docInsert (collection : Name) (jsonBody : CStr)

def WriteStmt.node : WriteStmt → Sql.ASTNode
  | .createTable tableName columns => .createTable tableName.text columns
  | .insert tableName rows => .insert tableName.text rows
  | .docInsert collection jsonBody => .docInsert collection.text jsonBody

/-- What a worker does with the statement. -/
def WriteStmt.execute (db : Db 1024) : WriteStmt → Option (Db 1024)
  | .createTable tableName columns => executeCreateTable db publicSession tableName.text columns
  | .insert tableName rows => executeInsert db publicSession tableName.text rows
  | .docInsert collection jsonBody =>
      executeDocInsert db publicSession collection.text jsonBody

/-- The statements that look for one row or one document by its id. -/
inductive PointLookup
  | select (tableName : Name) (clauses : Sql.SelectClauses) (id : CStr)
  | delete (tableName : Name) (id : CStr)
  | docGet (collection : Name) (docId : CStr)
  | docRemove (collection : Name) (docId : CStr)

namespace PointLookup

/-- `WHERE id = …` -/
def whereId (id : CStr) : Sql.Expr :=
  .binary (.identifier (CStr.lit "id")) (CStr.lit "=") (.literal id)

def node : PointLookup → Sql.ASTNode
  | .select tableName clauses id =>
      .select { clauses := { clauses with tableName := tableName.text }
                whereClause := some (whereId id) }
  | .delete tableName id => .delete tableName.text (some (whereId id))
  | .docGet collection docId => .docGet collection.text (some docId)
  | .docRemove collection docId => .docRemove collection.text docId

def id : PointLookup → CStr
  | .select _ _ id => id
  | .delete _ id => id
  | .docGet _ docId => docId
  | .docRemove _ docId => docId

/-- The key a worker looks for. -/
def key : PointLookup → CStr
  | .select tableName _ id => rowKey publicSession.currentDb tableName.text id
  | .delete tableName id => rowKey publicSession.currentDb tableName.text id
  | .docGet collection docId => docKey publicSession.currentDb collection.text docId
  | .docRemove collection docId => docKey publicSession.currentDb collection.text docId

theorem distRouteQuery_node (workerCount rr : Nat) (lookup : PointLookup) :
    distRouteQuery workerCount rr lookup.node =
      some (.worker (hashTarget workerCount lookup.id), rr) := by
  cases lookup with
  | select tableName clauses id =>
      simp [node, whereId, distRouteQuery, routeWhere, literalValue, PointLookup.id]
  | delete tableName id =>
      simp [node, whereId, distRouteQuery, routeWhere, literalValue, PointLookup.id]
  | docGet collection docId => rfl
  | docRemove collection docId => rfl

end PointLookup

/-! ## The master and its workers -/

def Stores (db : Db 1024) (key : CStr) : Prop :=
  Holds db.store.entries key

instance decidableStores (db : Db 1024) (key : CStr) : Decidable (Stores db key) :=
  inferInstanceAs (Decidable (Holds db.store.entries key))

structure Master where
  workers : List (Db 1024)
  rr : Nat

namespace Master

/-- New workers, and nothing sent to them. -/
def start (workerCount : Nat) : Master where
  workers := List.replicate workerCount serverInit
  rr := 0

def target (m : Master) (id : CStr) : Nat :=
  hashTarget m.workers.length id

/-- `send_to_worker`: the worker executes the statement. -/
def sendToWorker (m : Master) (i : Nat) (stmt : WriteStmt) : Option (List (Db 1024)) := do
  let worker ← m.workers[i]?
  let after ← stmt.execute worker
  return m.workers.set i after

/-- `none` for what is undefined, here or at a worker. -/
def step (m : Master) (stmt : WriteStmt) : Option Master :=
  match distRouteQuery m.workers.length m.rr stmt.node with
  | some (.worker i, rr) =>
      (m.sendToWorker i stmt).map fun workers => { workers := workers, rr := rr }
  | some (.broadcast, rr) =>
      (m.workers.mapM stmt.execute).map fun workers => { workers := workers, rr := rr }
  | none => none

/-- Some worker stores the row or the document. -/
def Inserted (m : Master) (key : CStr) : Prop :=
  ∃ worker ∈ m.workers, Stores worker key

/-- The lookup is sent to a worker that stores what it looks for. -/
def Serves (m : Master) (lookup : PointLookup) : Prop :=
  ∃ i, ∃ worker ∈ m.workers[i]?,
    distRouteQuery m.workers.length m.rr lookup.node = some (.worker i, m.rr) ∧
      Stores worker lookup.key

/-- Every point lookup finds what has been inserted. -/
def Finds (m : Master) : Prop :=
  ∀ lookup : PointLookup, m.Inserted lookup.key → m.Serves lookup

/-! ## Where writes and lookups agree -/

/-- The worker the id hashes to stores the key. -/
def StoredAt (m : Master) (id key : CStr) : Prop :=
  ∃ worker ∈ m.workers[m.target id]?, Stores worker key

/-- The id the row gets hashes to the first worker, or the row is stored where it hashes to. -/
def RowFits (m : Master) (tableName : CStr) (schema : Option CStr) (state : Db 1024 × Nat)
    (vals : List CStr) : Prop :=
  ∀ id ∈ vals[pkIndex schema]?, ∀ resolved ∈ resolveId state.1 publicSession tableName id,
    m.target resolved.1 = 0 ∨
      m.StoredAt resolved.1 (rowKey publicSession.currentDb tableName resolved.1)

def InsertFits (m : Master) (tableName : CStr) (rows : List (List CStr)) : Prop :=
  ∀ worker ∈ m.workers.head?,
    ∀ schema ∈ schemaText (worker.get (schemaKey publicSession.currentDb tableName)),
      StepsFit (insertRow publicSession tableName schema) (m.RowFits tableName schema)
        (worker, 0) rows

/-- The id the document gets hashes to the worker whose turn it is, or the document is stored where
it hashes to. -/
def DocFits (m : Master) (collection : CStr) : Prop :=
  ∀ worker ∈ m.workers[m.rr % m.workers.length]?,
    ∀ last ∈ counterOf worker (docCounterKey publicSession.currentDb collection) 0,
      ∀ nextId ∈ nextInt last,
        m.target (CStr.ofInt nextId) = m.rr % m.workers.length ∨
          m.StoredAt (CStr.ofInt nextId)
            (docKey publicSession.currentDb collection (CStr.ofInt nextId))

def WriteFits (m : Master) : WriteStmt → Prop
  | .createTable _ _ => True
  | .insert tableName rows => m.InsertFits tableName.text rows
  | .docInsert collection _ => m.DocFits collection.text

instance decidableStoredAt (m : Master) (id key : CStr) : Decidable (m.StoredAt id key) :=
  inferInstanceAs (Decidable (∃ worker ∈ m.workers[m.target id]?, Stores worker key))

instance decidableInserted (m : Master) (key : CStr) : Decidable (m.Inserted key) :=
  inferInstanceAs (Decidable (∃ worker ∈ m.workers, Stores worker key))

instance decidableRowFits (m : Master) (tableName : CStr) (schema : Option CStr)
    (state : Db 1024 × Nat) (vals : List CStr) :
    Decidable (m.RowFits tableName schema state vals) :=
  inferInstanceAs (Decidable (∀ id ∈ vals[pkIndex schema]?, _))

instance decidableInsertFits (m : Master) (tableName : CStr) (rows : List (List CStr)) :
    Decidable (m.InsertFits tableName rows) :=
  inferInstanceAs (Decidable (∀ worker ∈ m.workers.head?, _))

instance decidableDocFits (m : Master) (collection : CStr) : Decidable (m.DocFits collection) :=
  inferInstanceAs (Decidable (∀ worker ∈ m.workers[m.rr % m.workers.length]?, _))

instance decidableWriteFits (m : Master) : (stmt : WriteStmt) → Decidable (m.WriteFits stmt)
  | .createTable _ _ => isTrue trivial
  | .insert tableName rows => decidableInsertFits m tableName.text rows
  | .docInsert collection _ => decidableDocFits m collection.text

end Master

/-! ## What one worker adds -/

section Worker

variable {db db' : Db 1024} {ctx : SessionContext} {tableName : CStr}

theorem grows_createTable {columns : List ColumnDef}
    (hexec : executeCreateTable db ctx tableName columns = some db') :
    Grows (fun key => key = schemaKey ctx.currentDb tableName ∨
      key = counterKey ctx.currentDb tableName) db.store.entries db'.store.entries := by
  rcases entries_createTable hexec with heq | ⟨schema, _, _, heq⟩
  · rw [heq]
    exact Grows.refl _ _
  · rw [heq]
    exact (grows_insert _ _ (.inl rfl)).trans (grows_insert _ _ (.inr rfl))

/-- The keys the rows of an INSERT get, where every id the rows get is one of `R`. -/
def RowKeysOf (ctx : SessionContext) (tableName : CStr) (R : CStr → Prop) (key : CStr) : Prop :=
  key = counterKey ctx.currentDb tableName ∨
    ∃ id, R id ∧ key = rowKey ctx.currentDb tableName id

theorem grows_insertRow {R : CStr → Prop} {schema : Option CStr} {state state' : Db 1024 × Nat}
    {vals : List CStr}
    (hrow : ∀ id ∈ vals[pkIndex schema]?, ∀ resolved ∈ resolveId state.1 ctx tableName id,
      R resolved.1)
    (hexec : insertRow ctx tableName schema state vals = some state') :
    Grows (RowKeysOf ctx tableName R) state.1.store.entries state'.1.store.entries := by
  have hmoved : ∀ {id finalId : CStr} {moved : Db 1024},
      resolveId state.1 ctx tableName id = some (finalId, moved) →
      Grows (RowKeysOf ctx tableName R) state.1.store.entries moved.store.entries := by
    intro id finalId moved hid
    rcases entries_resolveId hid with heq | ⟨val, heq⟩
    · rw [heq]
      exact Grows.refl _ _
    · rw [heq]
      exact grows_insert _ _ (.inl rfl)
  cases insertRow_cases hexec with
  | missing _ hstore _ =>
      rw [hstore]
      exact Grows.refl _ _
  | duplicate id finalId moved old _ hid _ hstore _ =>
      rw [hstore]
      exact hmoved hid
  | stored id finalId moved data hpk hid _ _ hentries _ =>
      rw [hentries]
      exact (hmoved hid).trans (grows_insert _ _ (.inr ⟨finalId, hrow id hpk _ hid, rfl⟩))

theorem grows_insertRows {R : CStr → Prop} {schema : Option CStr} {rows : List (List CStr)}
    {state state' : Db 1024 × Nat}
    (hrows : StepsFit (insertRow ctx tableName schema) (fun state vals =>
      ∀ id ∈ vals[pkIndex schema]?, ∀ resolved ∈ resolveId state.1 ctx tableName id,
        R resolved.1) state rows)
    (hexec : insertRows ctx tableName schema state rows = some state') :
    Grows (RowKeysOf ctx tableName R) state.1.store.entries state'.1.store.entries := by
  induction rows generalizing state with
  | nil =>
      cases hexec
      exact Grows.refl _ _
  | cons vals rows ih =>
      obtain ⟨next, hone, hexec⟩ := Option.bind_eq_some_iff.mp hexec
      exact (grows_insertRow hrows.1 hone).trans (ih (hrows.2 next hone) hexec)

theorem grows_insert_stmt {R : CStr → Prop} {rows : List (List CStr)}
    (hrows : ∀ schema ∈ schemaText (db.get (schemaKey ctx.currentDb tableName)),
      StepsFit (insertRow ctx tableName schema) (fun state vals =>
        ∀ id ∈ vals[pkIndex schema]?, ∀ resolved ∈ resolveId state.1 ctx tableName id,
          R resolved.1) (db, 0) rows)
    (hexec : executeInsert db ctx tableName rows = some db') :
    Grows (RowKeysOf ctx tableName R) db.store.entries db'.store.entries := by
  unfold executeInsert at hexec
  split at hexec
  · cases hexec
    exact Grows.refl _ _
  · obtain ⟨metaKey, hkey, hexec⟩ := Option.bind_eq_some_iff.mp hexec
    cases sysGenerateKeySchema_eq_some hkey
    obtain ⟨schema, hschema, hexec⟩ := Option.bind_eq_some_iff.mp hexec
    obtain ⟨state, hstate, hexec⟩ := Option.bind_eq_some_iff.mp hexec
    cases hexec
    exact grows_insertRows (hrows schema hschema) hstate

theorem grows_docInsert {collection jsonBody : CStr}
    (hexec : executeDocInsert db ctx collection jsonBody = some db') :
    ∃ last nextId, counterOf db (docCounterKey ctx.currentDb collection) 0 = some last ∧
      nextInt last = some nextId ∧
      Grows (fun key => key = docCounterKey ctx.currentDb collection ∨
        key = docKey ctx.currentDb collection (CStr.ofInt nextId))
        db.store.entries db'.store.entries := by
  obtain ⟨last, nextId, hlast, hnext, heq⟩ := entries_docInsert hexec
  refine ⟨last, nextId, hlast, hnext, ?_⟩
  rw [heq]
  exact (grows_insert _ _ (.inl rfl)).trans (grows_insert _ _ (.inr rfl))

end Worker

/-! ## Keys of lookups -/

namespace PointLookup

theorem isWord_currentDb : Sql.isWord publicSession.currentDb = true := by
  decide

theorem key_ne_schemaKey (lookup : PointLookup) (tableName : CStr) :
    lookup.key ≠ schemaKey publicSession.currentDb tableName := by
  cases lookup with
  | select name clauses id => exact rowKey_ne_schemaKey isWord_currentDb isWord_currentDb
  | delete name id => exact rowKey_ne_schemaKey isWord_currentDb isWord_currentDb
  | docGet name id =>
      exact ne_of_letter isWord_currentDb isWord_currentDb (val_docKey _ _ _)
        (val_schemaKey _ _) (by decide)
  | docRemove name id =>
      exact ne_of_letter isWord_currentDb isWord_currentDb (val_docKey _ _ _)
        (val_schemaKey _ _) (by decide)

theorem key_ne_counterKey (lookup : PointLookup) (tableName : CStr) :
    lookup.key ≠ counterKey publicSession.currentDb tableName := by
  cases lookup with
  | select name clauses id => exact rowKey_ne_counterKey isWord_currentDb isWord_currentDb
  | delete name id => exact rowKey_ne_counterKey isWord_currentDb isWord_currentDb
  | docGet name id =>
      exact ne_of_letter isWord_currentDb isWord_currentDb (val_docKey _ _ _)
        (val_counterKey _ _) (by decide)
  | docRemove name id =>
      exact ne_of_letter isWord_currentDb isWord_currentDb (val_docKey _ _ _)
        (val_counterKey _ _) (by decide)

theorem key_ne_docCounterKey (lookup : PointLookup) (collection : CStr) :
    lookup.key ≠ docCounterKey publicSession.currentDb collection := by
  cases lookup with
  | select name clauses id =>
      exact ne_of_letter isWord_currentDb isWord_currentDb (val_rowKey _ _ _)
        (val_docCounterKey _ _) (by decide)
  | delete name id =>
      exact ne_of_letter isWord_currentDb isWord_currentDb (val_rowKey _ _ _)
        (val_docCounterKey _ _) (by decide)
  | docGet name id => exact docKey_ne_docCounterKey isWord_currentDb isWord_currentDb
  | docRemove name id => exact docKey_ne_docCounterKey isWord_currentDb isWord_currentDb

/-- A lookup that looks for a row key names the id of the row. -/
theorem id_of_rowKey {lookup : PointLookup} {tableName : Name} {rowId : CStr}
    (hkey : lookup.key = rowKey publicSession.currentDb tableName.text rowId) :
    lookup.id = rowId := by
  cases lookup with
  | select name clauses id =>
      exact (rowKey_inj isWord_currentDb isWord_currentDb name.isWord tableName.isWord hkey).2.2
  | delete name id =>
      exact (rowKey_inj isWord_currentDb isWord_currentDb name.isWord tableName.isWord hkey).2.2
  | docGet name id =>
      exact absurd hkey (ne_of_letter isWord_currentDb isWord_currentDb (val_docKey _ _ _)
        (val_rowKey _ _ _) (by decide))
  | docRemove name id =>
      exact absurd hkey (ne_of_letter isWord_currentDb isWord_currentDb (val_docKey _ _ _)
        (val_rowKey _ _ _) (by decide))

theorem id_of_docKey {lookup : PointLookup} {collection : Name} {docId : CStr}
    (hkey : lookup.key = docKey publicSession.currentDb collection.text docId) :
    lookup.id = docId := by
  cases lookup with
  | select name clauses id =>
      exact absurd hkey (ne_of_letter isWord_currentDb isWord_currentDb (val_rowKey _ _ _)
        (val_docKey _ _ _) (by decide))
  | delete name id =>
      exact absurd hkey (ne_of_letter isWord_currentDb isWord_currentDb (val_rowKey _ _ _)
        (val_docKey _ _ _) (by decide))
  | docGet name id =>
      exact (docKey_inj isWord_currentDb isWord_currentDb name.isWord collection.isWord hkey).2.2
  | docRemove name id =>
      exact (docKey_inj isWord_currentDb isWord_currentDb name.isWord collection.isWord hkey).2.2

end PointLookup

namespace Master

/-! ## What one statement adds -/

theorem serves_iff_storedAt {m : Master} {lookup : PointLookup} :
    m.Serves lookup ↔ m.StoredAt lookup.id lookup.key := by
  unfold Serves StoredAt
  simp only [PointLookup.distRouteQuery_node, target]
  constructor
  · rintro ⟨i, worker, hworker, hroute, hstores⟩
    cases hroute
    exact ⟨worker, hworker, hstores⟩
  · rintro ⟨worker, hworker, hstores⟩
    exact ⟨_, worker, hworker, rfl, hstores⟩

/-- A key that a lookup finds when worker `i` gets it. -/
def MayGet (m : Master) (i : Nat) (key : CStr) : Prop :=
  ∀ lookup : PointLookup, lookup.key = key →
    m.target lookup.id = i ∨ m.StoredAt lookup.id lookup.key

/-- Every worker keeps its keys, and gets only keys that lookups find there. -/
structure Extends (m after : Master) : Prop where
  length : after.workers.length = m.workers.length
  grows : ∀ i worker, m.workers[i]? = some worker →
    ∃ grown, after.workers[i]? = some grown ∧
      Grows (m.MayGet i) worker.store.entries grown.store.entries

/-- The first worker gets the rows, and the lookups of their ids find them there. -/
theorem grows_of_insertFits {m : Master} {tableName : Name} {rows : List (List CStr)}
    {worker grown : Db 1024} (hfits : m.InsertFits tableName.text rows)
    (hworker : m.workers[0]? = some worker)
    (hexec : executeInsert worker publicSession tableName.text rows = some grown) :
    Grows (m.MayGet 0) worker.store.entries grown.store.entries := by
  have hrows := hfits worker (by rw [List.head?_eq_getElem?]; exact hworker)
  refine (grows_insert_stmt (R := fun id => m.target id = 0 ∨
    m.StoredAt id (rowKey publicSession.currentDb tableName.text id)) hrows hexec).mono ?_
  rintro key (rfl | ⟨rowId, hid, rfl⟩) lookup hkey
  · exact absurd hkey (lookup.key_ne_counterKey _)
  · rw [hkey, PointLookup.id_of_rowKey hkey]
    exact hid

theorem grows_of_docFits {m : Master} {collection : Name} {jsonBody : CStr}
    {worker grown : Db 1024} (hfits : m.DocFits collection.text)
    (hworker : m.workers[m.rr % m.workers.length]? = some worker)
    (hexec : executeDocInsert worker publicSession collection.text jsonBody = some grown) :
    Grows (m.MayGet (m.rr % m.workers.length)) worker.store.entries grown.store.entries := by
  obtain ⟨last, nextId, hlast, hnext, hgrows⟩ := grows_docInsert hexec
  refine hgrows.mono ?_
  rintro key (rfl | rfl) lookup hkey
  · exact absurd hkey (lookup.key_ne_docCounterKey _)
  · rw [hkey, PointLookup.id_of_docKey hkey]
    exact hfits worker hworker last hlast nextId hnext

theorem extends_of_sendToWorker {m : Master} {i rr : Nat} {stmt : WriteStmt}
    {workers : List (Db 1024)}
    (hgrows : ∀ worker grown, m.workers[i]? = some worker → stmt.execute worker = some grown →
      Grows (m.MayGet i) worker.store.entries grown.store.entries)
    (hsend : m.sendToWorker i stmt = some workers) :
    m.Extends { workers := workers, rr := rr } := by
  obtain ⟨worker, hworker, hsend⟩ := Option.bind_eq_some_iff.mp hsend
  obtain ⟨grown, hexec, hsend⟩ := Option.bind_eq_some_iff.mp hsend
  cases hsend
  refine ⟨List.length_set, fun j other hother => ?_⟩
  by_cases hij : i = j
  · subst hij
    rw [hworker] at hother
    cases hother
    refine ⟨grown, ?_, hgrows worker grown hworker hexec⟩
    rw [List.getElem?_set_self', hworker]
    rfl
  · exact ⟨other, by rw [List.getElem?_set_ne hij, hother], Grows.refl _ _⟩

/-- A broadcast reaches every worker. -/
theorem getElem?_mapM {α β : Type*} {f : α → Option β} {xs : List α} {ys : List β}
    (hmap : xs.mapM f = some ys) :
    ys.length = xs.length ∧
      ∀ (i : Nat) (x : α), xs[i]? = some x → ∃ y, ys[i]? = some y ∧ f x = some y := by
  induction xs generalizing ys with
  | nil =>
      cases hmap
      exact ⟨rfl, fun i x hx => by simp at hx⟩
  | cons x xs ih =>
      rw [List.mapM_cons] at hmap
      obtain ⟨y, hy, hmap⟩ := Option.bind_eq_some_iff.mp hmap
      obtain ⟨rest, hrest, hmap⟩ := Option.bind_eq_some_iff.mp hmap
      cases hmap
      obtain ⟨hlen, hget⟩ := ih hrest
      refine ⟨by simp [hlen], fun i x' hx' => ?_⟩
      cases i with
      | zero =>
          cases hx'
          exact ⟨y, rfl, hy⟩
      | succ i => exact hget i x' hx'

theorem extends_of_broadcast {m : Master} {rr : Nat} {stmt : WriteStmt}
    {workers : List (Db 1024)}
    (hgrows : ∀ i worker grown, stmt.execute worker = some grown →
      Grows (m.MayGet i) worker.store.entries grown.store.entries)
    (hsend : m.workers.mapM stmt.execute = some workers) :
    m.Extends { workers := workers, rr := rr } := by
  obtain ⟨hlen, hget⟩ := getElem?_mapM hsend
  refine ⟨hlen, fun i worker hworker => ?_⟩
  obtain ⟨grown, hgrown, hexec⟩ := hget i worker hworker
  exact ⟨grown, hgrown, hgrows i worker grown hexec⟩

theorem extends_step {m after : Master} {stmt : WriteStmt} (hfits : m.WriteFits stmt)
    (hstep : m.step stmt = some after) : m.Extends after := by
  cases stmt with
  | createTable tableName columns =>
      obtain ⟨workers, hworkers, rfl⟩ := Option.map_eq_some_iff.mp hstep
      refine extends_of_broadcast (fun i worker grown hexec => ?_) hworkers
      refine (grows_createTable hexec).mono ?_
      rintro key (rfl | rfl) lookup hkey
      · exact absurd hkey (lookup.key_ne_schemaKey _)
      · exact absurd hkey (lookup.key_ne_counterKey _)
  | insert tableName rows =>
      unfold step at hstep
      simp only [WriteStmt.node, distRouteQuery] at hstep
      by_cases hrows : rows = []
      · rw [if_pos hrows] at hstep
        obtain ⟨workers, hworkers, rfl⟩ := Option.map_eq_some_iff.mp hstep
        refine extends_of_broadcast (fun i worker grown hexec => ?_) hworkers
        change executeInsert _ _ _ _ = _ at hexec
        rw [executeInsert, if_pos hrows] at hexec
        cases hexec
        exact Grows.refl _ _
      · rw [if_neg hrows] at hstep
        obtain ⟨workers, hworkers, rfl⟩ := Option.map_eq_some_iff.mp hstep
        refine extends_of_sendToWorker ?_ hworkers
        intro worker grown hworker hexec
        exact grows_of_insertFits hfits hworker hexec
  | docInsert collection jsonBody =>
      unfold step at hstep
      simp only [WriteStmt.node, distRouteQuery] at hstep
      split_ifs at hstep with hmax
      · obtain ⟨workers, hworkers, rfl⟩ := Option.map_eq_some_iff.mp hstep
        refine extends_of_sendToWorker ?_ hworkers
        intro worker grown hworker hexec
        exact grows_of_docFits hfits hworker hexec

/-! ## Whole runs -/

/-- What has been stored stays stored. -/
theorem Extends.storedAt {m after : Master} (hext : m.Extends after) {id key : CStr}
    (hstored : m.StoredAt id key) : after.StoredAt id key := by
  obtain ⟨worker, hworker, hstores⟩ := hstored
  obtain ⟨grown, hgrown, hgrows⟩ := hext.grows _ worker hworker
  refine ⟨grown, ?_, hgrows.keeps key hstores⟩
  unfold target
  rw [hext.length]
  exact hgrown

theorem Extends.finds {m after : Master} (hext : m.Extends after) (hfinds : m.Finds) :
    after.Finds := by
  rintro lookup ⟨grown, hmem, hstores⟩
  rw [serves_iff_storedAt]
  obtain ⟨i, hi⟩ := List.mem_iff_getElem?.mp hmem
  have hlt : i < m.workers.length := by
    rw [← hext.length]
    exact (List.getElem?_eq_some_iff.mp hi).1
  obtain ⟨grown', hgrown, hgrows⟩ := hext.grows i _ (List.getElem?_eq_getElem hlt)
  rw [hi] at hgrown
  cases hgrown
  rcases hgrows.adds _ hstores with hold | hnew
  · have hinserted : m.Inserted lookup.key := ⟨_, List.getElem_mem hlt, hold⟩
    exact hext.storedAt (serves_iff_storedAt.mp (hfinds lookup hinserted))
  · rcases hnew lookup rfl with htarget | hstored
    · refine ⟨grown, ?_, hstores⟩
      have hafter : after.target lookup.id = i := by
        rw [← htarget, target, target, hext.length]
      rw [hafter]
      exact hi
    · exact hext.storedAt hstored

theorem finds_start (workerCount : Nat) : (start workerCount).Finds := by
  rintro lookup ⟨worker, hmem, i, hi⟩
  cases List.eq_of_mem_replicate hmem
  cases hi

/-- As long as every id hashes to the worker that stores its row or document, or is stored where it
hashes to, the lookups find every row and every document. -/
theorem point_lookups_find (workerCount : Nat) (stmts : List WriteStmt)
    (hfits : StepsFit step WriteFits (start workerCount) stmts) :
    Stays step Finds (start workerCount) stmts :=
  stays_of_stepsFit
    (fun _ _ _ hfinds hfit hstep => (extends_step hfit hstep).finds hfinds)
    (finds_start workerCount) hfits

/-- The table `t`. -/
def tableT : Name where
  text := CStr.lit "t"
  isWord := by decide

/-- Rows and documents on two workers: the ids 1 and 3 hash to the first one, and the document 1 of
the second worker is found at the first. -/
def placedStmts : List WriteStmt :=
  [.createTable tableT [{ name := CStr.lit "id", type := CStr.lit "INT", isPk := true }],
    .insert tableT [[CStr.lit "1"], [CStr.lit "3"]],
    .docInsert tableT (CStr.lit "{}"), .docInsert tableT (CStr.lit "{}")]

theorem point_lookups_find_placedStmts :
    StepsFit step WriteFits (start 2) placedStmts ∧ Stays step Finds (start 2) placedStmts := by
  have hfits : StepsFit step WriteFits (start 2) placedStmts := by decide +kernel
  exact ⟨hfits, point_lookups_find 2 placedStmts hfits⟩

/-- `INSERT INTO t VALUES (2)` -/
def insertTwo : WriteStmt :=
  .insert tableT [[CStr.lit "2"]]

/-- `SELECT * FROM t WHERE id = 2` -/
def selectTwo : PointLookup :=
  .select tableT
    { tableName := CStr.lit "t"
      columns := [{ value := CStr.lit "*", funcType := .none }]
      groupBy := none
      orderColumns := []
      limit := -1
      offset := 0 }
    (CStr.lit "2")

/-- The row with the id 2 is stored on the first worker, and looked for on the second. -/
theorem inserted_row_is_not_found :
    (∃ after, (start 2).step insertTwo = some after ∧
      after.Inserted selectTwo.key ∧ ¬ after.Serves selectTwo) ∧
      ¬ Stays step Finds (start 2) [insertTwo] := by
  have hsome : ((start 2).step insertTwo).isSome := by decide +kernel
  obtain ⟨after, hafter⟩ := Option.isSome_iff_exists.mp hsome
  have hlost : ∀ after ∈ (start 2).step insertTwo,
      after.Inserted selectTwo.key ∧ ¬ after.StoredAt selectTwo.id selectTwo.key := by
    decide +kernel
  obtain ⟨hinserted, hnot⟩ := hlost after hafter
  rw [← serves_iff_storedAt] at hnot
  exact ⟨⟨after, hafter, hinserted, hnot⟩, fun hstays =>
    hnot (hstays.2 after hafter selectTwo hinserted)⟩

end Master

end Server
end InventixDB
