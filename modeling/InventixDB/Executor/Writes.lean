import InventixDB.Executor.Statements

/-!
# Writes — what a statement does, as a chain of logged and unlogged calls

Whatever a statement other than a transaction command does to the store and to the undo log is a
chain of `Write`s: one call on the store each, with the undo record that goes with it, if it has
one.  The `chain_…` lemmas give the chain of every statement once; later proofs only say what a
single write preserves.
-/

namespace InventixDB
namespace Executor

open Storage
open Transaction

variable {n : Nat} [NeZero n]

/-! ## Chains of writes -/

/-- A call on the store together with its undo record. -/
structure Write where
  call : KVCall
  record : Option TxnOperation
  deriving DecidableEq

def Write.apply (db : Db n) (w : Write) : Db n :=
  match w.record with
  | some record => (db.call w.call).pushOperation record
  | none => db.call w.call

/-- `db'` comes from `db` by writes that satisfy `P` where they are made, and by output and index
updates in between. -/
inductive Chain (P : Db n → Write → Prop) : Db n → Db n → Prop
  | done (db : Db n) : Chain P db db
  | aside {db db' : Db n} (out : List CStr) (indexes : List Index)
      (rest : Chain P { db with out := out, store := { db.store with indexes := indexes } } db') :
      Chain P db db'
  | write {db db' : Db n} (w : Write) (hw : P db w) (rest : Chain P (w.apply db) db') :
      Chain P db db'

section Chain

variable {P Q : Db n → Write → Prop} {db db' db'' : Db n}

theorem Chain.trans (h₁ : Chain P db db') (h₂ : Chain P db' db'') : Chain P db db'' := by
  induction h₁ with
  | done db => exact h₂
  | aside out indexes _ ih => exact .aside out indexes (ih h₂)
  | write w hw _ ih => exact .write w hw (ih h₂)

theorem Chain.one (w : Write) (hw : P db w) : Chain P db (w.apply db) := by
  exact .write w hw (.done _)

theorem chain_fprintf (P : Db n → Write → Prop) (db : Db n) (text : CStr) :
    Chain P db (db.fprintf text) := by
  exact .aside (db.out ++ [text]) db.store.indexes (.done _)

theorem Chain.fprintf (hc : Chain P db db') (text : CStr) : Chain P db (db'.fprintf text) := by
  exact hc.trans (chain_fprintf P db' text)

/-- A bare call is a write without a record. -/
theorem chain_call (c : KVCall) (hw : P db { call := c, record := none }) :
    Chain P db (db.call c) := by
  exact Chain.one { call := c, record := none } hw

end Chain

/-- Logging before the call and logging after it are the same. -/
theorem pushOperation_call (db : Db n) (op : TxnOperation) (c : KVCall) :
    (db.pushOperation op).call c = (db.call c).pushOperation op := by
  have hmanager : (db.call c).txnManager = db.txnManager := rfl
  unfold Db.pushOperation
  rw [hmanager]
  cases db.txnManager.activeTxn <;> rfl

omit [NeZero n] in
@[simp]
theorem store_pushOperation (db : Db n) (op : TxnOperation) :
    (db.pushOperation op).store = db.store := by
  unfold Db.pushOperation
  split <;> rfl

/-- A write changes the store by its call alone. -/
theorem store_apply (db : Db n) (w : Write) : (w.apply db).store = w.call.exec db.store := by
  unfold Write.apply
  split
  · rw [store_pushOperation]
    rfl
  · rfl

/-! ## Table statements -/

section Statements

variable {P : Db n → Write → Prop} {db db' : Db n} {ctx : SessionContext} {tableName : CStr}

theorem chain_createTable {columns : List ColumnDef}
    (hexec : executeCreateTable db ctx tableName columns = some db')
    (hcreate : ∀ key schema, sysGenerateKeySchema ctx.currentDb tableName = some key →
      db.get key = none →
      P db ⟨.put key { data := schema.val ++ [0], type := .schema },
        some { createOperation .createTable tableName none none with schemaJson := some schema }⟩)
    (hcounter : ∀ key schema seqKey,
      sysGenerateKeySchema ctx.currentDb tableName = some key → db.get key = none →
      sysGenerateKeySeq ctx.currentDb tableName = some seqKey →
      P (txnLogCreateTable (db.call (.put key { data := schema.val ++ [0], type := .schema }))
          tableName schema)
        ⟨.put seqKey { data := CStr.intBytes 0, type := .row }, none⟩) :
    Chain P db db' := by
  unfold executeCreateTable at hexec
  obtain ⟨key, hkey, hexec⟩ := Option.bind_eq_some_iff.mp hexec
  cases hget : db.get key with
  | some v =>
      rw [hget, if_pos Option.isSome_some] at hexec
      cases hexec
      exact chain_fprintf P db _
  | none =>
      rw [hget, if_neg (by simp)] at hexec
      obtain ⟨schema, _, hexec⟩ := Option.bind_eq_some_iff.mp hexec
      obtain ⟨seqKey, hseq, hexec⟩ := Option.bind_eq_some_iff.mp hexec
      cases hexec
      refine Chain.fprintf ?_ _
      exact .write _ (hcreate key schema hkey hget)
        (chain_call _ (hcounter key schema seqKey hkey hget hseq))

theorem chain_dropTable (hexec : executeDropTable db ctx tableName = some db')
    (hdrop : ∀ key v schema, sysGenerateKeySchema ctx.currentDb tableName = some key →
      db.get key = some v → CStr.ofBuffer? v.data = some schema →
      P db ⟨.delete key,
        some { createOperation .dropTable tableName none none with schemaJson := some schema }⟩)
    (hdropBare : ∀ key v, sysGenerateKeySchema ctx.currentDb tableName = some key →
      db.get key = some v → db.txnManager.activeTxn = none → P db ⟨.delete key, none⟩)
    (hcounter : ∀ db₁ key v seqKey, sysGenerateKeySchema ctx.currentDb tableName = some key →
      db.get key = some v → sysGenerateKeySeq ctx.currentDb tableName = some seqKey →
      db₁.store = (db.call (.delete key)).store → P db₁ ⟨.delete seqKey, none⟩) :
    Chain P db db' := by
  unfold executeDropTable at hexec
  obtain ⟨key, hkey, hexec⟩ := Option.bind_eq_some_iff.mp hexec
  cases hget : db.get key with
  | none =>
      rw [hget] at hexec
      cases hexec
      exact chain_fprintf P db _
  | some v =>
      rw [hget] at hexec
      obtain ⟨logged, hlog, hexec⟩ := Option.bind_eq_some_iff.mp hexec
      obtain ⟨seqKey, hseq, hexec⟩ := Option.bind_eq_some_iff.mp hexec
      cases hexec
      refine Chain.fprintf ?_ _
      unfold txnLogDropTable at hlog
      cases htxn : db.txnManager.activeTxn with
      | none =>
          rw [htxn] at hlog
          cases hlog
          exact .write _ (hdropBare key v hkey hget htxn)
            (chain_call _ (hcounter _ key v seqKey hkey hget hseq rfl))
      | some txn =>
          rw [htxn] at hlog
          obtain ⟨schema, hschema, rfl⟩ := Option.map_eq_some_iff.mp hlog
          rw [pushOperation_call]
          refine .write ⟨.delete key, some _⟩ (hdrop key v schema hkey hget hschema)
            (chain_call _ (hcounter _ key v seqKey hkey hget hseq ?_))
          exact store_apply db _

/-! ## Row statements -/

/-- Storing a row under `id` writes the table's counter: the id is drawn from it, or is a number
beyond it. -/
def movesCounter (db : Db n) (ctx : SessionContext) (tableName id : CStr) : Bool :=
  id = CStr.lit "AUTO" ||
    isNumeric id &&
      match (sysGenerateKeySeq ctx.currentDb tableName).bind
          fun seqKey => counterOf db seqKey 0 with
      | some currentSeq => CStr.atoi id > currentSeq
      | none => false

theorem resolveId_cases {id finalId : CStr}
    (hid : resolveId db ctx tableName id = some (finalId, db')) :
    (movesCounter db ctx tableName id = false ∧ db' = db) ∨
      (movesCounter db ctx tableName id = true ∧ ∃ seqKey val,
        sysGenerateKeySeq ctx.currentDb tableName = some seqKey ∧
          db' = db.call (.put seqKey val)) := by
  unfold resolveId at hid
  by_cases hauto : id = CStr.lit "AUTO"
  · rw [if_pos hauto] at hid
    obtain ⟨seqKey, hseq, hid⟩ := Option.bind_eq_some_iff.mp hid
    obtain ⟨last, _, hid⟩ := Option.bind_eq_some_iff.mp hid
    obtain ⟨seq, _, hid⟩ := Option.bind_eq_some_iff.mp hid
    cases hid
    exact Or.inr ⟨by simp [movesCounter, hauto], seqKey, _, hseq, rfl⟩
  · rw [if_neg hauto] at hid
    obtain ⟨final, hfinal, hrest⟩ := Option.bind_eq_some_iff.mp hid
    obtain ⟨rfl, _⟩ := CStr.sprintf_eq_some hfinal
    by_cases hnum : isNumeric final = true
    · rw [if_pos hnum] at hrest
      obtain ⟨seqKey, hseq, hrest⟩ := Option.bind_eq_some_iff.mp hrest
      obtain ⟨currentSeq, hcur, hrest⟩ := Option.bind_eq_some_iff.mp hrest
      by_cases hgt : CStr.atoi final > currentSeq
      · rw [if_pos hgt] at hrest
        cases hrest
        exact Or.inr ⟨by simp [movesCounter, hnum, hseq, hcur, hgt], seqKey, _, hseq, rfl⟩
      · rw [if_neg hgt] at hrest
        cases hrest
        exact Or.inl ⟨by simp [movesCounter, hauto, hseq, hcur, hgt], rfl⟩
    · rw [if_neg hnum] at hrest
      cases hrest
      exact Or.inl ⟨by simp [movesCounter, hauto, hnum], rfl⟩

theorem chain_updateIndexes {schema : Option CStr} {key : CStr} {vals : List CStr}
    (hidx : updateIndexes db tableName key schema vals = some db') : Chain P db db' := by
  unfold updateIndexes at hidx
  cases schema with
  | none =>
      cases hidx
      exact .done _
  | some schema =>
      obtain ⟨text, _, rfl⟩ := Option.map_eq_some_iff.mp hidx
      exact .aside db.out (kvUpdateIndexes db.store tableName key text).indexes (.done _)

theorem chain_insertRow {schema : Option CStr} {state state' : Db n × Nat} {vals : List CStr}
    (hexec : insertRow ctx tableName schema state vals = some state')
    (hcounter : ∀ id seqKey val, vals[pkIndex schema]? = some id →
      movesCounter state.1 ctx tableName id = true →
      sysGenerateKeySeq ctx.currentDb tableName = some seqKey →
      P state.1 ⟨.put seqKey val, none⟩)
    (hrow : ∀ db₁ key row, db₁.get key = none →
      P db₁ ⟨.put key { data := row, type := .row },
        some (createOperation .insert tableName (some key) none)⟩) :
    Chain P state.1 state'.1 := by
  obtain ⟨db, count⟩ := state
  unfold insertRow at hexec
  dsimp only at hexec
  cases hpk : vals[pkIndex schema]? with
  | none =>
      rw [hpk] at hexec
      cases hexec
      exact chain_fprintf P db _
  | some id =>
      rw [hpk] at hexec
      obtain ⟨⟨finalId, db₁⟩, hid, hexec⟩ := Option.bind_eq_some_iff.mp hexec
      have hmove : Chain P db db₁ := by
        rcases resolveId_cases hid with ⟨_, rfl⟩ | ⟨hmoves, seqKey, val, hseq, rfl⟩
        · exact .done _
        · exact chain_call _ (hcounter id seqKey val hpk hmoves hseq)
      refine hmove.trans ?_
      dsimp only at hexec
      obtain ⟨key, _, hexec⟩ := Option.bind_eq_some_iff.mp hexec
      cases hget : db₁.get key with
      | some v =>
          rw [hget, if_pos Option.isSome_some] at hexec
          cases hexec
          exact chain_fprintf P db₁ _
      | none =>
          rw [hget, if_neg (by simp)] at hexec
          obtain ⟨row, _, hexec⟩ := Option.bind_eq_some_iff.mp hexec
          obtain ⟨db₂, hidx, hexec⟩ := Option.bind_eq_some_iff.mp hexec
          cases hexec
          exact .write _ (hrow db₁ key row hget) (chain_updateIndexes hidx)

/-- Every row of an INSERT meets a state in which `Q` holds of it. -/
def RowsMeet (Q : Db n → List CStr → Prop) (ctx : SessionContext) (tableName : CStr)
    (schema : Option CStr) : Db n × Nat → List (List CStr) → Prop
  | _, [] => True
  | state, vals :: rows =>
      Q state.1 vals ∧ ∀ state' ∈ insertRow ctx tableName schema state vals,
        RowsMeet Q ctx tableName schema state' rows

instance decidableRowsMeet {Q : Db n → List CStr → Prop} [∀ db vals, Decidable (Q db vals)]
    {schema : Option CStr} : (state : Db n × Nat) → (rows : List (List CStr)) →
      Decidable (RowsMeet Q ctx tableName schema state rows)
  | _, [] => isTrue trivial
  | _, _ :: rows =>
      haveI : DecidablePred fun state' => RowsMeet Q ctx tableName schema state' rows :=
        fun state' => decidableRowsMeet state' rows
      inferInstanceAs (Decidable (_ ∧ _))

theorem rowsMeet_of_forall {Q : Db n → List CStr → Prop} (hQ : ∀ db vals, Q db vals)
    {schema : Option CStr} (state : Db n × Nat) (rows : List (List CStr)) :
    RowsMeet Q ctx tableName schema state rows := by
  induction rows generalizing state with
  | nil => trivial
  | cons vals rows ih => exact ⟨hQ state.1 vals, fun state' _ => ih state'⟩

theorem chain_insertRows {Q : Db n → List CStr → Prop} {schema : Option CStr}
    (hone : ∀ state vals state', Q state.1 vals →
      insertRow ctx tableName schema state vals = some state' → Chain P state.1 state'.1)
    {state state' : Db n × Nat} {rows : List (List CStr)}
    (hmeet : RowsMeet Q ctx tableName schema state rows)
    (hexec : insertRows ctx tableName schema state rows = some state') :
    Chain P state.1 state'.1 := by
  induction rows generalizing state with
  | nil =>
      cases hexec
      exact .done _
  | cons vals rows ih =>
      obtain ⟨hQ, hrest⟩ := hmeet
      obtain ⟨state₁, hrow, hrows⟩ := Option.bind_eq_some_iff.mp hexec
      exact (hone state vals state₁ hQ hrow).trans (ih (hrest state₁ hrow) hrows)

theorem chain_insert {Q : Option CStr → Db n → List CStr → Prop} {rows : List (List CStr)}
    (hexec : executeInsert db ctx tableName rows = some db')
    (hmeet : ∀ metaKey schema, sysGenerateKeySchema ctx.currentDb tableName = some metaKey →
      schemaText (db.get metaKey) = some schema →
      RowsMeet (Q schema) ctx tableName schema (db, 0) rows)
    (hone : ∀ schema state vals state', Q schema state.1 vals →
      insertRow ctx tableName schema state vals = some state' → Chain P state.1 state'.1) :
    Chain P db db' := by
  unfold executeInsert at hexec
  by_cases hrows : rows = []
  · rw [if_pos hrows] at hexec
    cases hexec
    exact .done _
  · rw [if_neg hrows] at hexec
    obtain ⟨metaKey, hkey, hexec⟩ := Option.bind_eq_some_iff.mp hexec
    obtain ⟨schema, hschema, hexec⟩ := Option.bind_eq_some_iff.mp hexec
    obtain ⟨⟨db₁, count⟩, hins, hexec⟩ := Option.bind_eq_some_iff.mp hexec
    cases hexec
    exact (chain_insertRows (hone schema) (hmeet metaKey schema hkey hschema) hins).fprintf _

theorem chain_delete {whereClause : Option ASTExpr}
    (hexec : executeDelete db ctx tableName whereClause = some db')
    (hlogged : ∀ id key old, deleteTarget whereClause = some (some id) →
      sysGenerateKeyTable ctx.currentDb tableName id = some key → db.get key = some old →
      P db ⟨.delete key, some (createOperation .delete tableName (some key) (some old.data))⟩)
    (hbare : ∀ key, db.get key = none → P db ⟨.delete key, none⟩) : Chain P db db' := by
  unfold executeDelete at hexec
  obtain ⟨target, htarget, hexec⟩ := Option.bind_eq_some_iff.mp hexec
  cases target with
  | none =>
      cases hexec
      exact chain_fprintf P db _
  | some id =>
      obtain ⟨key, hkey, hexec⟩ := Option.bind_eq_some_iff.mp hexec
      cases hexec
      refine Chain.fprintf ?_ _
      cases hget : db.get key with
      | none => exact chain_call _ (hbare key hget)
      | some old =>
          dsimp only
          rw [txnLogDelete, pushOperation_call]
          exact Chain.one _ (hlogged id key old htarget hkey hget)

theorem chain_update {sets : List (CStr × CStr)} {whereClause : Option ASTExpr}
    (hexec : executeUpdate db ctx tableName sets whereClause = some db')
    (hlogged : ∀ id key old row, updateTarget whereClause = some id →
      sysGenerateKeyTable ctx.currentDb tableName id = some key → db.get key = some old →
      old.data ≠ [] →
      P db ⟨.put key { data := row, type := .row },
        some (createOperation .update tableName (some key) (some old.data))⟩) :
    Chain P db db' := by
  unfold executeUpdate at hexec
  obtain ⟨metaKey, _, hexec⟩ := Option.bind_eq_some_iff.mp hexec
  cases hmeta : db.get metaKey with
  | none =>
      rw [hmeta] at hexec
      cases hexec
      exact chain_fprintf P db _
  | some schemaVal =>
      rw [hmeta] at hexec
      obtain ⟨schema, _, hexec⟩ := Option.bind_eq_some_iff.mp hexec
      dsimp only at hexec
      split at hexec
      · cases hexec
        exact chain_fprintf P db _
      · cases htarget : updateTarget whereClause with
        | none =>
            rw [htarget] at hexec
            cases hexec
            exact chain_fprintf P db _
        | some id =>
            rw [htarget] at hexec
            obtain ⟨key, hkey, hexec⟩ := Option.bind_eq_some_iff.mp hexec
            cases hget : db.get key with
            | none =>
                rw [hget] at hexec
                cases hexec
                exact chain_fprintf P db _
            | some old =>
                rw [hget] at hexec
                obtain ⟨values, hvalues, hexec⟩ := Option.bind_eq_some_iff.mp hexec
                cases values with
                | none =>
                    cases hexec
                    exact chain_fprintf P db _
                | some values =>
                    obtain ⟨row, _, hexec⟩ := Option.bind_eq_some_iff.mp hexec
                    cases hexec
                    -- A value that deserializes holds at least its column count.
                    have hdata : old.data ≠ [] := by
                      intro hnil
                      rw [hnil] at hvalues
                      cases hvalues
                    rw [txnLogUpdate, pushOperation_call]
                    exact (Chain.one _ (hlogged id key old row htarget hkey hget hdata)).fprintf _

/-! ## Statements that log nothing -/

theorem chain_docInsert {collection jsonBody : CStr}
    (hexec : executeDocInsert db ctx collection jsonBody = some db')
    (hput : ∀ db₁ key val, P db₁ ⟨.put key val, none⟩) : Chain P db db' := by
  unfold executeDocInsert at hexec
  obtain ⟨seqKey, _, hexec⟩ := Option.bind_eq_some_iff.mp hexec
  obtain ⟨last, _, hexec⟩ := Option.bind_eq_some_iff.mp hexec
  obtain ⟨nextId, _, hexec⟩ := Option.bind_eq_some_iff.mp hexec
  obtain ⟨key, _, hexec⟩ := Option.bind_eq_some_iff.mp hexec
  cases hexec
  exact ((chain_call _ (hput _ _ _)).trans (chain_call _ (hput _ _ _))).fprintf _

theorem chain_docRemove {collection docId : CStr}
    (hexec : executeDocRemove db ctx collection docId = some db')
    (hdel : ∀ key v,
      CStr.sprintf 256 (CStr.lit "DB:" ++ ctx.currentDb ++ CStr.lit ":DOC:" ++ collection ++
        CStr.lit ":" ++ docId) = some key →
      db.get key = some v → P db ⟨.delete key, none⟩) : Chain P db db' := by
  unfold executeDocRemove at hexec
  obtain ⟨key, hkey, hexec⟩ := Option.bind_eq_some_iff.mp hexec
  cases hget : db.get key with
  | none =>
      rw [hget, if_neg (by simp)] at hexec
      cases hexec
      exact chain_fprintf P db _
  | some v =>
      rw [hget, if_pos Option.isSome_some] at hexec
      cases hexec
      exact (chain_call _ (hdel key v hkey hget)).fprintf _

/-- A list of unlogged calls. -/
theorem chain_calls (calls : List KVCall) (hcall : ∀ db₁ c, P db₁ ⟨c, none⟩) :
    Chain P db (calls.foldl Db.call db) := by
  induction calls generalizing db with
  | nil => exact .done _
  | cons c calls ih => exact (chain_call c (hcall db c)).trans ih

theorem chain_useDb {dbName : CStr} {ctx' : SessionContext}
    (hexec : executeUseDb db ctx dbName = some (db', ctx')) : Chain P db db' := by
  unfold executeUseDb at hexec
  split at hexec
  · obtain ⟨ctx₁, _, huse⟩ := Option.bind_eq_some_iff.mp hexec
    cases huse
    exact chain_fprintf P db _
  · obtain ⟨key, _, huse⟩ := Option.bind_eq_some_iff.mp hexec
    split at huse
    · obtain ⟨ctx₁, _, huse⟩ := Option.bind_eq_some_iff.mp huse
      cases huse
      exact chain_fprintf P db _
    · cases huse
      exact chain_fprintf P db _

theorem chain_dropDb {dbName : CStr} (hexec : executeDropDb db ctx dbName = some db')
    (hcall : ∀ db₁ c, P db₁ ⟨c, none⟩) : Chain P db db' := by
  unfold executeDropDb at hexec
  split at hexec
  · cases hexec
    exact chain_fprintf P db _
  · split at hexec
    · cases hexec
      exact chain_fprintf P db _
    · obtain ⟨sysKey, _, hexec⟩ := Option.bind_eq_some_iff.mp hexec
      split at hexec
      · obtain ⟨pre, _, hexec⟩ := Option.bind_eq_some_iff.mp hexec
        cases hexec
        refine Chain.fprintf (Chain.trans ?_ (chain_call _ (hcall _ _))) _
        rw [← List.foldl_map (f := fun key => KVCall.delete key) (g := Db.call)]
        exact chain_calls _ hcall
      · cases hexec
        exact chain_fprintf P db _

end Statements

/-! ## Every statement -/

/-- The transaction commands. -/
def ASTNode.isTransactionCommand : ASTNode → Bool
  | .begin | .commit | .rollback | .rollbackTo _ | .savepoint _ | .releaseSavepoint _ => true
  | _ => false

/-- The statements that keep an undo record of what they write. -/
def ASTNode.isLogged : ASTNode → Bool
  | .createTable _ _ | .insert _ _ | .delete _ _ | .update _ _ _ | .dropTable _ => true
  | _ => false

/-- Every other statement is a chain of writes, without records unless it keeps an undo log. -/
theorem executeQuery_chain {db db' : Db n} {ctx ctx' : SessionContext} {stmt : ASTNode}
    (hstmt : stmt.isTransactionCommand = false)
    (hexec : executeQuery db ctx stmt = some (db', ctx')) :
    Chain (fun _ w => stmt.isLogged = true ∨ w.record = none) db db' := by
  have hctx : ∀ {o : Option (Db n)}, o.map (·, ctx) = some (db', ctx') → o = some db' := by
    intro o ho
    obtain ⟨db₁, hdb, heq⟩ := Option.map_eq_some_iff.mp ho
    cases heq
    exact hdb
  cases stmt with
  | createTable tableName columns =>
      exact chain_createTable (hctx hexec) (fun _ _ _ _ => Or.inl rfl)
        fun _ _ _ _ _ _ => Or.inl rfl
  | insert tableName rows =>
      refine chain_insert (Q := fun _ _ _ => True) (hctx hexec)
        (fun _ _ _ _ => rowsMeet_of_forall (fun _ _ => trivial) _ _) ?_
      intro schema state vals state' _ hrow
      exact chain_insertRow hrow (fun _ _ _ _ _ _ => Or.inl rfl) fun _ _ _ _ => Or.inl rfl
  | delete tableName whereClause =>
      exact chain_delete (hctx hexec) (fun _ _ _ _ _ _ => Or.inl rfl) fun _ _ => Or.inl rfl
  | update tableName sets whereClause =>
      exact chain_update (hctx hexec) fun _ _ _ _ _ _ _ _ => Or.inl rfl
  | dropTable tableName =>
      exact chain_dropTable (hctx hexec) (fun _ _ _ _ _ _ => Or.inl rfl)
        (fun _ _ _ _ _ => Or.inl rfl) fun _ _ _ _ _ _ _ _ => Or.inl rfl
  | docInsert collection jsonBody =>
      exact chain_docInsert (hctx hexec) fun _ _ _ => Or.inr rfl
  | docRemove collection docId =>
      exact chain_docRemove (hctx hexec) fun _ _ _ _ => Or.inr rfl
  | checkpoint =>
      cases hexec
      exact ((chain_fprintf _ db _).trans (chain_call _ (Or.inr rfl))).fprintf _
  | createIndex tableName colName =>
      obtain ⟨tableFull, _, hidx⟩ := Option.bind_eq_some_iff.mp (hctx hexec)
      cases hidx
      exact Chain.fprintf (.aside db.out _ (.done _)) _
  | createUser username password =>
      obtain ⟨key, _, huser⟩ := Option.bind_eq_some_iff.mp (hctx hexec)
      split at huser
      · cases huser
        exact chain_fprintf _ db _
      · cases huser
        exact (chain_call _ (Or.inr rfl)).fprintf _
  | createDb dbName =>
      obtain ⟨key, _, hdb⟩ := Option.bind_eq_some_iff.mp (hctx hexec)
      split at hdb
      · cases hdb
        exact chain_fprintf _ db _
      · cases hdb
        exact (chain_call _ (Or.inr rfl)).fprintf _
  | useDb dbName => exact chain_useDb hexec
  | dropDb dbName => exact chain_dropDb (hctx hexec) fun _ _ => Or.inr rfl
  | foreign calls currentDb =>
      cases hexec
      exact chain_calls calls fun _ _ => Or.inr rfl
  -- The statements on the transaction itself.
  | _ => cases hstmt

end Executor
end InventixDB
