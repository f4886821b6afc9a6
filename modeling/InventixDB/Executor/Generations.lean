import InventixDB.Executor.NewRows
import InventixDB.Executor.PrimaryKeys
import InventixDB.Executor.Select

/-!
# Generations — a table that is dropped and made again

DROP TABLE deletes the schema and the counter of a table and leaves its rows where they are.  A
table made again under the same name has them from the start, unless there are none.
-/

namespace InventixDB
namespace Executor

open Storage
open Sql
open Transaction
open Lib.OpenAddressing

variable {n : Nat} [NeZero n]

/-! ## The rows of a generation -/

/-- A server, with the keys of the rows inserted into a table since it was last made again after a
DROP; `none` before that.  `dropped` says that a DROP has taken place and no CREATE since. -/
structure Generation (n : Nat) where
  db : Db n
  dropped : Bool
  inserted : Option (List CStr)

def Generation.start (db : Db n) : Generation n where
  db := db
  dropped := false
  inserted := none

/-- The table is there, as the statements see it. -/
def tableExists (db : Db n) (database tableName : CStr) : Bool :=
  (kvGet db.store (schemaKey database tableName)).isSome

/-- A statement of some session. -/
def Generation.step (database tableName : CStr) (g : Generation n)
    (s : SessionContext × ASTNode) : Option (Generation n) :=
  (executeQuery g.db s.1 s.2).map fun r =>
    let exists' := tableExists g.db database tableName
    match s.2 with
    | .createTable name _ =>
        if s.1.currentDb = database ∧ name = tableName ∧ exists' = false ∧ g.dropped then
          { db := r.1, dropped := false, inserted := some [] }
        else { g with db := r.1 }
    | .dropTable name =>
        if s.1.currentDb = database ∧ name = tableName ∧ exists' then
          { g with db := r.1, dropped := true }
        else { g with db := r.1 }
    | .insert name _ =>
        if s.1.currentDb = database ∧ name = tableName then
          { g with
            db := r.1
            inserted := g.inserted.map fun keys =>
              keys ++ newKeys database tableName g.db.store r.1.store }
        else { g with db := r.1 }
    | _ => { g with db := r.1 }

def Generation.run (database tableName : CStr) :
    Generation n → List (SessionContext × ASTNode) → Option (Generation n)
  | g, [] => some g
  | g, s :: steps => (g.step database tableName s).bind fun g => g.run database tableName steps

/-! ## What a generation promises -/

/-- A SELECT on the table finds only rows inserted since. -/
def Generation.SelectsNew (g : Generation n) (database tableName : CStr)
    (keys : List CStr) : Prop :=
  ∀ (session : SessionContext) (stmt : SelectStmt) (run : SelectRun),
    session.currentDb = database → stmt.clauses.tableName = tableName →
    executeSelect g.db.store session stmt = some (some run) → ∀ row ∈ run.rows,
      ∃ e ∈ toList g.db.store.entries, e.1 ∈ keys ∧ tableRow database tableName e = some row

/-- An INSERT of one row whose primary key has not been inserted since is accepted. -/
def Generation.AcceptsNew (g : Generation n) (database tableName : CStr)
    (keys : List CStr) : Prop :=
  ∀ (session : SessionContext) (vals : List CStr) (db' : Db n) (schema : Option CStr) (id : CStr)
    (moved : CStr × Db n), session.currentDb = database →
    executeInsert g.db session tableName [vals] = some db' →
    schemaText (kvGet g.db.store (schemaKey database tableName)) = some schema →
    vals[pkIndex schema]? = some id → resolveId g.db session tableName id = some moved →
    rowKey database tableName moved.1 ∉ keys →
    db'.out.getLast? =
      some (CStr.lit "Inserted " ++ CStr.ofInt 1 ++ CStr.lit " row(s) into '" ++ tableName ++
        CStr.lit "'.\n")

/-- The table of a row key. -/
def keyTable (key : CStr) : Option (CStr × CStr) := do
  let (_, afterDb) ← if CStr.startsWith (CStr.lit "DB:") key then CStr.breakAt 58 key else none
  let (database, rest) ← CStr.breakAt 58 afterDb
  if CStr.startsWith (CStr.lit "TBL:") rest then
    let (_, afterTbl) ← CStr.breakAt 58 rest
    let (tableName, _) ← CStr.breakAt 58 afterTbl
    some (database, tableName)
  else none

/-- A row key of another table than this one. -/
def OtherRowKey (database tableName key : CStr) : Prop :=
  ∃ table ∈ keyTable key, table ≠ (database, tableName)

instance instDecidableOtherRowKey (database tableName key : CStr) :
    Decidable (OtherRowKey database tableName key) :=
  inferInstanceAs (Decidable (∃ table ∈ keyTable key, table ≠ (database, tableName)))

/-- The rows of all other tables stand where they stood and are found as they were. -/
structure KeepsOthers (database tableName : CStr) (before after : KVStore n) : Prop where
  slots : ∀ key, OtherRowKey database tableName key → ∀ i v,
    after.entries i = some (key, v) ↔ before.entries i = some (key, v)
  found : ∀ key, OtherRowKey database tableName key → kvGet after key = kvGet before key

/-- Every DROP TABLE of a run keeps the rows of the other tables. -/
def DropsKeepOthers : Db n → List (SessionContext × ASTNode) → Prop
  | _, [] => True
  | db, s :: steps =>
      (∀ name, s.2 = .dropTable name → ∀ r, executeQuery db s.1 s.2 = some r →
        KeepsOthers s.1.currentDb name db.store r.1.store) ∧
      ∀ r, executeQuery db s.1 s.2 = some r → DropsKeepOthers r.1 steps

/-! ## When it keeps the promise -/

/-- A probe for `other` passes the slot where one for `key` ends. -/
def onTheWay (t : Table CStr Value n) (key other : CStr) : Bool :=
  match probe CStr.slot t key, probe CStr.slot t other with
  | .hit j, .hit i => decide (Before CStr.slot other j i)
  | _, _ => false

/-- The slot of `key` is on the way to no row of another table. -/
def SparesOthers (t : Table CStr Value n) (database tableName key : CStr) : Prop :=
  ∀ e ∈ toList t, OtherRowKey database tableName e.1 → onTheWay t key e.1 = false

instance instDecidableSparesOthers (t : Table CStr Value n) (database tableName key : CStr) :
    Decidable (SparesOthers t database tableName key) :=
  inferInstanceAs (Decidable (∀ e ∈ toList t, _))

/-- A DROP empties no slot on the way to a row of another table. -/
def DropFits (db : Db n) (database tableName : CStr) : Prop :=
  SparesOthers db.store.entries database tableName (schemaKey database tableName) ∧
    SparesOthers (erase CStr.slot db.store.entries (schemaKey database tableName)) database
      tableName (counterKey database tableName)

instance instDecidableDropFits (db : Db n) (database tableName : CStr) :
    Decidable (DropFits db database tableName) :=
  inferInstanceAs (Decidable (_ ∧ _))

/-- A call that puts a row of the table puts one of `keys`. -/
def PutsAmong (database tableName : CStr) (keys : List CStr) : KVCall → Prop
  | .put key _ => CStr.startsWith (rowPrefix database tableName) key = true → key ∈ keys
  | _ => True

instance instDecidablePutsAmong (database tableName : CStr) (keys : List CStr) :
    (c : KVCall) → Decidable (PutsAmong database tableName keys c)
  | .put _ _ =>
      inferInstanceAs (Decidable (_ → _))
  | .delete _ | .get _ | .snapshot => isTrue trivial

/-- The table is made again where none of its rows is left, a DROP spares the rows of other tables,
and no rollback or other module puts rows of an earlier generation back. -/
def Generation.Fits (database tableName : CStr) (g : Generation n)
    (s : SessionContext × ASTNode) : Prop :=
  (∀ keys ∈ g.inserted, ∀ c ∈ askedCalls g.db s.2, PutsAmong database tableName keys c) ∧
    match s.2 with
    | .createTable name _ =>
        s.1.currentDb = database ∧ name = tableName ∧
            tableExists g.db database tableName = false ∧ g.dropped = true →
          ∀ e ∈ toList g.db.store.entries,
            CStr.startsWith (rowPrefix database tableName) e.1 = false
    | .dropTable name => DropFits g.db s.1.currentDb name
    | _ => True

instance instDecidableGenerationFits (database tableName : CStr) (g : Generation n) :
    (s : SessionContext × ASTNode) → Decidable (g.Fits database tableName s) := fun s =>
  haveI : Decidable
      (match s.2 with
      | .createTable name _ =>
          s.1.currentDb = database ∧ name = tableName ∧
              tableExists g.db database tableName = false ∧ g.dropped = true →
            ∀ e ∈ toList g.db.store.entries,
              CStr.startsWith (rowPrefix database tableName) e.1 = false
      | .dropTable name => DropFits g.db s.1.currentDb name
      | _ => True) := by
    cases s.2 <;> dsimp only <;> infer_instance
  inferInstanceAs (Decidable (_ ∧ _))

/-- Every step of a run fits the generation it meets. -/
def Generation.RunFits (database tableName : CStr) :
    Generation n → List (SessionContext × ASTNode) → Prop
  | _, [] => True
  | g, s :: steps =>
      g.Fits database tableName s ∧
        ∀ g' ∈ g.step database tableName s, g'.RunFits database tableName steps

instance instDecidableGenerationRunFits (database tableName : CStr) :
    (g : Generation n) → (steps : List (SessionContext × ASTNode)) →
      Decidable (g.RunFits database tableName steps)
  | _, [] => isTrue trivial
  | _, _ :: steps =>
      haveI : DecidablePred fun g' : Generation n => g'.RunFits database tableName steps :=
        fun g' => instDecidableGenerationRunFits database tableName g' steps
      inferInstanceAs (Decidable (_ ∧ _))

/-! ## What is stored of a table -/

/-- Every stored row of the table has been inserted since. -/
def Generation.Tracks (g : Generation n) (database tableName : CStr) : Prop :=
  ∀ keys ∈ g.inserted, ∀ i e, g.db.store.entries i = some e →
    CStr.startsWith (rowPrefix database tableName) e.1 = true → e.1 ∈ keys

section Tracks

variable {g g' : Generation n} {s : SessionContext × ASTNode} {database tableName : CStr}
  {db' : Db n} {ctx' : SessionContext}

/-- A statement that is not an INSERT into the table leaves no other rows of it than there were. -/
theorem Generation.Tracks.keep (htracks : g.Tracks database tableName)
    (hd : Sql.isWord database = true) (ht : Sql.isWord tableName = true)
    (hctx : Sql.isWord s.1.currentDb = true) (hnames : namesWords s.2 = true)
    (hfits : g.Fits database tableName s)
    (hother : ∀ name rows, s.2 = .insert name rows →
      ¬ (s.1.currentDb = database ∧ name = tableName))
    (hexec : executeQuery g.db s.1 s.2 = some (db', ctx')) {keys : List CStr}
    (hkeys : keys ∈ g.inserted) {i : Fin n} {e : CStr × Value}
    (hentry : db'.store.entries i = some e)
    (hstarts : CStr.startsWith (rowPrefix database tableName) e.1 = true) : e.1 ∈ keys := by
  have hasked : ∀ key val, .put key val ∈ askedCalls g.db s.2 →
      CStr.startsWith (rowPrefix database tableName) key = true → key ∈ keys :=
    fun key val hmem => hfits.1 keys hkeys (.put key val) hmem
  rcases newRows_executeQuery hd hctx ht hnames hother hasked hexec i e hentry hstarts with
    ⟨j, v, hold⟩ | hmem
  · exact htracks keys hkeys j (e.1, v) hold hstarts
  · exact hmem

/-- Rows an INSERT has added are new keys. -/
theorem mem_newKeys {before after : KVStore n} {i : Fin n} {e : CStr × Value}
    (hentry : after.entries i = some e)
    (hstarts : CStr.startsWith (rowPrefix database tableName) e.1 = true)
    (hnone : kvGet before e.1 = none) : e.1 ∈ newKeys database tableName before after := by
  unfold newKeys
  rw [List.mem_filter]
  refine ⟨List.mem_map_of_mem (mem_toList.mpr ⟨i, hentry⟩), ?_⟩
  have hpre : CStr.startsWith (indexTable database tableName ++ CStr.lit ":") e.1 = true :=
    hstarts
  rw [hpre, hnone]
  rfl

theorem Generation.Tracks.step (htracks : g.Tracks database tableName)
    (hd : Sql.isWord database = true) (ht : Sql.isWord tableName = true)
    (hctx : Sql.isWord s.1.currentDb = true) (hnames : namesWords s.2 = true)
    (hfits : g.Fits database tableName s) (hstep : g.step database tableName s = some g') :
    g'.Tracks database tableName := by
  obtain ⟨⟨db', ctx'⟩, hexec, rfl⟩ := Option.map_eq_some_iff.mp hstep
  obtain ⟨session, stmt⟩ := s
  cases stmt with
  | createTable name columns =>
      dsimp only
      split_ifs with hnew
      · -- the table is new, and none of its rows is left
        intro keys hkeys i e hentry hstarts
        obtain ⟨_, hdone, heq⟩ := Option.map_eq_some_iff.mp hexec
        cases heq
        rcases newRows_createTable hd hctx hdone i e hentry hstarts with ⟨j, v, hold⟩ | hmem
        · have hgone := hfits.2 hnew (e.1, v) (mem_toList.mpr ⟨j, hold⟩)
          exact absurd hstarts (by rw [hgone]; exact Bool.false_ne_true)
        · cases hmem
      · intro keys hkeys i e hentry hstarts
        exact htracks.keep hd ht hctx hnames hfits (by simp) hexec hkeys hentry hstarts
  | dropTable name =>
      dsimp only
      split_ifs with hdrop
      all_goals
        intro keys hkeys i e hentry hstarts
        exact htracks.keep hd ht hctx hnames hfits (by simp) hexec hkeys hentry hstarts
  | insert name rows =>
      dsimp only
      split_ifs with hinto
      · intro keys' hkeys' i e hentry hstarts
        obtain ⟨keys, hkeys, rfl⟩ := Option.map_eq_some_iff.mp hkeys'
        rw [List.mem_append]
        cases hget : kvGet g.db.store e.1 with
        | some v =>
            obtain ⟨j, _, hold⟩ := lookup_eq_some_iff_hit.mp hget
            exact .inl (htracks keys hkeys j (e.1, v) hold hstarts)
        | none => exact .inr (mem_newKeys hentry hstarts hget)
      · intro keys hkeys i e hentry hstarts
        refine htracks.keep hd ht hctx hnames hfits ?_ hexec hkeys hentry hstarts
        intro name' rows' heq
        cases heq
        exact hinto
  | _ =>
      intro keys hkeys i e hentry hstarts
      exact htracks.keep hd ht hctx hnames hfits (by simp) hexec hkeys hentry hstarts

theorem Generation.Tracks.run {steps : List (SessionContext × ASTNode)}
    (htracks : g.Tracks database tableName) (hd : Sql.isWord database = true)
    (ht : Sql.isWord tableName = true)
    (hsteps : ∀ s ∈ steps, Sql.isWord s.1.currentDb = true ∧ namesWords s.2 = true)
    (hfits : g.RunFits database tableName steps) (hrun : g.run database tableName steps = some g') :
    g'.Tracks database tableName := by
  induction steps generalizing g with
  | nil =>
      cases hrun
      exact htracks
  | cons s steps ih =>
      obtain ⟨hstep, hrest⟩ := hfits
      obtain ⟨g₁, hone, hrun⟩ := Option.bind_eq_some_iff.mp hrun
      obtain ⟨hctx, hnames⟩ := hsteps s List.mem_cons_self
      exact ih (htracks.step hd ht hctx hnames hstep hone)
        (fun s' hs' => hsteps s' (List.mem_cons_of_mem s hs')) (hrest g₁ hone) hrun

end Tracks

/-! ## What a SELECT finds -/

section Selects

variable {store : KVStore n} {scan : ScanContext}

/-- A row that a lookup finds is stored. -/
theorem stored_of_foundRow {pk : CStr} {row : List CStr}
    (hfound : foundRow store scan pk = some row) :
    ∃ e ∈ toList store.entries, tableRow scan.database scan.tableName e = some row := by
  obtain ⟨val, hget, hmatching⟩ := Option.bind_eq_some_iff.mp hfound
  obtain ⟨j, _, hentry⟩ := lookup_eq_some_iff_hit.mp hget
  exact ⟨(pk, val), mem_toList.mpr ⟨j, hentry⟩, (Option.filter_eq_some_iff.mp hmatching).1⟩

/-- Every path hands on stored rows of its table only. -/
theorem stored_of_scanPath {path : AccessPath} {rows : List (List CStr)} {row : List CStr}
    (hscan : scanPath store scan path = some rows) (hrow : row ∈ rows) :
    ∃ e ∈ toList store.entries, tableRow scan.database scan.tableName e = some row := by
  cases path with
  | primaryKeyLookup id =>
      obtain ⟨pkKey, _, rfl⟩ := lookup_rows hscan
      exact stored_of_foundRow (Option.mem_toList.mp hrow)
  | indexScan col op val =>
      rw [indexScan_rows hscan] at hrow
      obtain ⟨pk, _, hfound⟩ := List.mem_filterMap.mp hrow
      exact stored_of_foundRow hfound
  | fullTableScan =>
      rw [scanTable_eq hscan] at hrow
      obtain ⟨e, hmem, hmatching⟩ := List.mem_filterMap.mp hrow
      exact ⟨e, hmem, (Option.filter_eq_some_iff.mp hmatching).1⟩

theorem Generation.Tracks.selectsNew {g : Generation n} {database tableName : CStr}
    {keys : List CStr} (htracks : g.Tracks database tableName) (hkeys : keys ∈ g.inserted) :
    g.SelectsNew database tableName keys := by
  intro session stmt run hdb htable hrun row hrow
  obtain ⟨-, hscan, hdatabase, hname⟩ := executeSelect_eq_some hrun
  obtain ⟨e, hmem, hstored⟩ := stored_of_scanPath hscan hrow
  rw [hdatabase, hname, hdb, htable] at hstored
  obtain ⟨i, hentry⟩ := mem_toList.mp hmem
  refine ⟨e, hmem, htracks keys hkeys i e hentry ?_, hstored⟩
  exact startsWith_rowPrefix_iff.mpr (key_of_tableRow hstored)

end Selects

/-! ## What an INSERT refuses -/

theorem Generation.Tracks.acceptsNew {g : Generation n} {database tableName : CStr}
    {keys : List CStr} (htracks : g.Tracks database tableName) (hkeys : keys ∈ g.inserted)
    (hd : Sql.isWord database = true) : g.AcceptsNew database tableName keys := by
  intro session vals db' schema id moved hdb hexec hschema hpk hid hnew
  subst hdb
  obtain ⟨finalId, db₁⟩ := moved
  rw [executeInsert, if_neg (by simp)] at hexec
  obtain ⟨metaKey, hmetaKey, hexec⟩ := Option.bind_eq_some_iff.mp hexec
  cases sysGenerateKeySchema_eq_some hmetaKey
  obtain ⟨schema', hschema', hexec⟩ := Option.bind_eq_some_iff.mp hexec
  cases hschema.symm.trans hschema'
  obtain ⟨state, hrows, hexec⟩ := Option.bind_eq_some_iff.mp hexec
  obtain ⟨state₁, hone, hrest⟩ := Option.bind_eq_some_iff.mp hrows
  cases hrest
  cases insertRow_cases hone with
  | missing hnone =>
      rw [hpk] at hnone
      cases hnone
  | duplicate id' finalId' moved' old hpk' hid' hget =>
      cases hpk.symm.trans hpk'
      cases hid.symm.trans hid'
      -- the key was stored before the counter was moved
      obtain ⟨j, _, hentry⟩ := lookup_eq_some_iff_hit.mp hget
      refine absurd ?_ hnew
      have hstarts := startsWith_rowPrefix_iff.mpr
        ⟨finalId, (rfl : rowKey session.currentDb tableName finalId = _)⟩
      rcases entries_resolveId hid with heq | ⟨val, heq⟩
      · rw [heq] at hentry
        exact htracks keys hkeys j _ hentry hstarts
      · rw [heq] at hentry
        rcases insert_slot hentry with hold | hcounter
        · exact htracks keys hkeys j _ hold hstarts
        · exact absurd (Prod.mk.inj hcounter).1 (rowKey_ne_counterKey hd hd)
  | stored id' finalId' moved' data hpk' hid' hget hdata hentries hcount =>
      obtain ⟨db₂, count⟩ := state
      cases hcount
      cases hexec
      simp [Db.fprintf]

/-! ## What a DROP leaves -/

section Drops

variable {database tableName key : CStr}

/-- A key of a database that goes on with another letter than `T` is of no table. -/
theorem keyTable_of_letter {c : UInt8} {rest : List UInt8} (hd : Sql.isWord database = true)
    (hkey : key.val = (CStr.lit "DB:").val ++ (database.val ++ 58 :: c :: rest)) (hc : c ≠ 84) :
    keyTable key = none := by
  have hlit : (CStr.lit "DB:").val = [68, 66] ++ [58] := by decide
  rw [hlit, List.append_assoc] at hkey
  have hnul : 0 ∉ (database.val ++ 58 :: c :: rest) := by
    intro hmem
    refine key.property ?_
    rw [hkey]
    exact List.mem_append_right _ (List.mem_cons_of_mem _ hmem)
  have hnul' : 0 ∉ c :: rest := fun hmem =>
    hnul (List.mem_append_right _ (List.mem_cons_of_mem _ hmem))
  have hstarts : CStr.startsWith (CStr.lit "DB:") key = true := by
    unfold CStr.startsWith
    rw [hkey, hlit]
    exact List.isPrefixOf_iff_prefix.mpr ⟨_, rfl⟩
  have hdb : CStr.breakAt 58 key = some (CStr.lit "DB", ⟨_, hnul⟩) :=
    CStr.breakAt_eq_some hkey (by decide)
  have hdatabase : CStr.breakAt 58 ⟨_, hnul⟩ = some (database, ⟨c :: rest, hnul'⟩) :=
    CStr.breakAt_eq_some rfl (colon_notMem_of_isWord hd)
  have hletter : CStr.startsWith (CStr.lit "TBL:") ⟨c :: rest, hnul'⟩ = false := by
    have hlit : (CStr.lit "TBL:").val = [84, 66, 76, 58] := by decide
    unfold CStr.startsWith
    rw [hlit, List.isPrefixOf_cons_cons, beq_eq_false_iff_ne.mpr hc.symm, Bool.false_and]
  simp [keyTable, hstarts, hdb, hdatabase, hletter]

/-- The key of a schema and that of a counter are no row keys. -/
theorem otherRowKey_ne {database' tableName' : CStr} (hd' : Sql.isWord database' = true)
    (hother : OtherRowKey database tableName key) :
    key ≠ schemaKey database' tableName' ∧ key ≠ counterKey database' tableName' := by
  obtain ⟨table, htable, _⟩ := hother
  constructor
  · rintro rfl
    rw [keyTable_of_letter hd' (val_schemaKey database' tableName') (by decide)] at htable
    cases htable
  · rintro rfl
    rw [keyTable_of_letter hd' (val_counterKey database' tableName') (by decide)] at htable
    cases htable

variable {t : Table CStr Value n} {gone : CStr}

/-- A delete that empties no slot on the way to the rows of other tables keeps them all. -/
theorem lookup_erase_of_sparesOthers (hspares : SparesOthers t database tableName gone)
    (hother : OtherRowKey database tableName key) (hne : key ≠ gone) :
    lookup CStr.slot (erase CStr.slot t gone) key = lookup CStr.slot t key := by
  cases hp : probe CStr.slot t gone with
  | hit j =>
      refine (lookup_erase_eq_iff hne hp).mpr fun i hhit hbefore => ?_
      obtain ⟨⟨v, hentry⟩, _⟩ := probe_eq_hit_iff.mp hhit
      have hclear := hspares (key, v) (mem_toList.mpr ⟨i, hentry⟩) hother
      unfold onTheWay at hclear
      simp only [hp, hhit] at hclear
      exact of_decide_eq_false hclear hbefore
  | free j => simp [erase, hp]
  | full => simp [erase, hp]

theorem slot_erase_iff {i : Fin n} {v : Value} (hne : key ≠ gone) :
    erase CStr.slot t gone i = some (key, v) ↔ t i = some (key, v) :=
  ⟨erase_slot, fun hentry => erase_keeps hentry hne⟩

theorem keepsOthers_refl {before after : KVStore n} (heq : after.entries = before.entries) :
    KeepsOthers database tableName before after where
  slots key _ i v := by rw [heq]
  found key _ := by
    unfold kvGet
    rw [heq]

theorem keepsOthers_dropTable {db db' : Db n} {ctx : SessionContext}
    (hctx : Sql.isWord ctx.currentDb = true) (hfits : DropFits db ctx.currentDb tableName)
    (hexec : executeDropTable db ctx tableName = some db') :
    KeepsOthers ctx.currentDb tableName db.store db'.store := by
  rcases entries_dropTable hexec with ⟨_, heq⟩ | ⟨_, heq⟩
  · exact keepsOthers_refl heq
  refine ⟨fun key hother i v => ?_, fun key hother => ?_⟩
  · have ⟨hschema, hcounter⟩ : key ≠ schemaKey ctx.currentDb tableName ∧
        key ≠ counterKey ctx.currentDb tableName := otherRowKey_ne hctx hother
    rw [heq, slot_erase_iff hcounter, slot_erase_iff hschema]
  · have ⟨hschema, hcounter⟩ : key ≠ schemaKey ctx.currentDb tableName ∧
        key ≠ counterKey ctx.currentDb tableName := otherRowKey_ne hctx hother
    calc kvGet db'.store key
        = lookup CStr.slot (erase CStr.slot (erase CStr.slot db.store.entries
            (schemaKey ctx.currentDb tableName)) (counterKey ctx.currentDb tableName)) key := by
          rw [← heq]
          rfl
      _ = lookup CStr.slot (erase CStr.slot db.store.entries
            (schemaKey ctx.currentDb tableName)) key :=
          lookup_erase_of_sparesOthers hfits.2 hother hcounter
      _ = lookup CStr.slot db.store.entries key :=
          lookup_erase_of_sparesOthers hfits.1 hother hschema

end Drops

theorem Generation.db_of_step {g g' : Generation n} {s : SessionContext × ASTNode}
    {database tableName : CStr} (hstep : g.step database tableName s = some g') :
    ∃ ctx', executeQuery g.db s.1 s.2 = some (g'.db, ctx') := by
  obtain ⟨⟨db', ctx'⟩, hexec, rfl⟩ := Option.map_eq_some_iff.mp hstep
  refine ⟨ctx', ?_⟩
  rw [hexec]
  obtain ⟨session, stmt⟩ := s
  cases stmt <;> dsimp only <;> split_ifs <;> rfl

theorem dropsKeepOthers_of_runFits {g : Generation n} {database tableName : CStr}
    {steps : List (SessionContext × ASTNode)}
    (hsteps : ∀ s ∈ steps, Sql.isWord s.1.currentDb = true ∧ namesWords s.2 = true)
    (hfits : g.RunFits database tableName steps) : DropsKeepOthers g.db steps := by
  induction steps generalizing g with
  | nil => exact trivial
  | cons s steps ih =>
      obtain ⟨hstep, hrest⟩ := hfits
      obtain ⟨session, stmt⟩ := s
      refine ⟨?_, ?_⟩
      · rintro name ⟨⟩ ⟨db', ctx'⟩ hexec
        obtain ⟨_, hdone, heq⟩ := Option.map_eq_some_iff.mp hexec
        cases heq
        exact keepsOthers_dropTable (hsteps _ List.mem_cons_self).1 hstep.2 hdone
      · intro r hexec
        obtain ⟨g', hg'⟩ : ∃ g', g.step database tableName (session, stmt) = some g' := by
          unfold Generation.step
          rw [hexec]
          exact ⟨_, rfl⟩
        obtain ⟨ctx', hexec'⟩ := Generation.db_of_step hg'
        cases hexec.symm.trans hexec'
        exact ih (fun s' hs' => hsteps s' (List.mem_cons_of_mem _ hs')) (hrest g' hg')

/-! ## Generations of a table -/

/-- In every state a server reaches by statements that fit, a table made again after a DROP has the
rows inserted since and no others, accepts every row whose key has not been inserted since, and
every DROP has kept the rows of the other tables. -/
theorem generations_isolated (database tableName : CStr) (steps : List (SessionContext × ASTNode))
    (g : Generation 1024) (hd : Sql.isWord database = true) (ht : Sql.isWord tableName = true)
    (hsteps : ∀ s ∈ steps, Sql.isWord s.1.currentDb = true ∧ namesWords s.2 = true)
    (hfits : (Generation.start serverInit).RunFits database tableName steps)
    (hrun : (Generation.start serverInit).run database tableName steps = some g) :
    (∀ keys ∈ g.inserted, g.SelectsNew database tableName keys ∧
        g.AcceptsNew database tableName keys) ∧
      DropsKeepOthers serverInit steps := by
  have hstart : (Generation.start (serverInit : Db 1024)).Tracks database tableName := by
    intro keys hkeys
    cases hkeys
  have htracks := hstart.run hd ht hsteps hfits hrun
  refine ⟨fun keys hkeys => ⟨htracks.selectsNew hkeys, htracks.acceptsNew hkeys hd⟩, ?_⟩
  exact dropsKeepOthers_of_runFits hsteps hfits

/-- The table `t` with a key and a value. -/
def makeTable : ASTNode :=
  .createTable (CStr.lit "t")
    [{ name := CStr.lit "id", type := CStr.lit "INT", isPk := true },
      { name := CStr.lit "v", type := CStr.lit "TEXT", isPk := false }]

/-- `INSERT INTO t VALUES (1, v)` -/
def insertOne (v : String) : ASTNode :=
  .insert (CStr.lit "t") [[CStr.lit "1", CStr.lit v]]

/-- A table that is emptied before it is dropped and made again. -/
def emptiedSteps : List (SessionContext × ASTNode) :=
  [makeTable, insertOne "a", .delete (CStr.lit "t") (idIs "1"), .dropTable (CStr.lit "t"),
    makeTable, insertOne "b"].map fun stmt => (publicSession, stmt)

theorem generations_isolated_emptiedSteps :
    ∃ g, (Generation.start serverInit).run (CStr.lit "public") (CStr.lit "t") emptiedSteps =
        some g ∧
      g.inserted = some [rowKey (CStr.lit "public") (CStr.lit "t") (CStr.lit "1")] ∧
      (∀ keys ∈ g.inserted, g.SelectsNew (CStr.lit "public") (CStr.lit "t") keys ∧
        g.AcceptsNew (CStr.lit "public") (CStr.lit "t") keys) ∧
      DropsKeepOthers (n := 1024) serverInit emptiedSteps := by
  have hview : ((Generation.start serverInit).run (CStr.lit "public") (CStr.lit "t")
      emptiedSteps).map Generation.inserted =
      some (some [rowKey (CStr.lit "public") (CStr.lit "t") (CStr.lit "1")]) := by decide +kernel
  obtain ⟨g, hrun, hinserted⟩ := Option.map_eq_some_iff.mp hview
  exact ⟨g, hrun, hinserted, generations_isolated _ _ emptiedSteps g (by decide) (by decide)
    (by decide) (by decide +kernel) hrun⟩

/-- A table that is dropped with its row and made again. -/
def staleSteps : List (SessionContext × ASTNode) :=
  [makeTable, insertOne "a", .dropTable (CStr.lit "t"), makeTable].map
    fun stmt => (publicSession, stmt)

/-- `SELECT * FROM t` -/
def selectEveryRow : SelectStmt where
  clauses := (selectWhere "id" "1").clauses
  whereClause := none

/-- The new table has the row of the old one, and refuses a row with its key. -/
theorem createTable_finds_dropped_rows :
    ∃ g run db', (Generation.start serverInit).run (CStr.lit "public") (CStr.lit "t") staleSteps =
        some g ∧
      g.inserted = some [] ∧
      executeSelect g.db.store publicSession selectEveryRow = some (some run) ∧
      run.rows = [[CStr.lit "1", CStr.lit "a"]] ∧
      executeInsert g.db publicSession (CStr.lit "t") [[CStr.lit "1", CStr.lit "b"]] = some db' ∧
      db'.out.getLast? = some (CStr.lit "Inserted 0 row(s) into 't'.\n") ∧
      ¬ g.SelectsNew (CStr.lit "public") (CStr.lit "t") [] ∧
      ¬ g.AcceptsNew (CStr.lit "public") (CStr.lit "t") [] := by
  have hview : ((Generation.start serverInit).run (CStr.lit "public") (CStr.lit "t")
      staleSteps).map Generation.inserted = some (some []) := by decide
  obtain ⟨g, hrun, hinserted⟩ := Option.map_eq_some_iff.mp hview
  have hselect : (((Generation.start serverInit).run (CStr.lit "public") (CStr.lit "t")
      staleSteps).bind fun g => (executeSelect g.db.store publicSession selectEveryRow).join).map
        SelectRun.rows = some [[CStr.lit "1", CStr.lit "a"]] := by decide +kernel
  have hinsert : (((Generation.start serverInit).run (CStr.lit "public") (CStr.lit "t")
      staleSteps).bind fun g => executeInsert g.db publicSession (CStr.lit "t")
        [[CStr.lit "1", CStr.lit "b"]]).map (fun db' => db'.out.getLast?) =
      some (some (CStr.lit "Inserted 0 row(s) into 't'.\n")) := by decide
  have hschema : (((Generation.start serverInit).run (CStr.lit "public") (CStr.lit "t")
      staleSteps).bind fun g => schemaText (kvGet g.db.store (schemaKey (CStr.lit "public")
        (CStr.lit "t")))).map (fun schema => [CStr.lit "1", CStr.lit "b"][pkIndex schema]?) =
      some (some (CStr.lit "1")) := by decide
  have hid : (((Generation.start serverInit).run (CStr.lit "public") (CStr.lit "t")
      staleSteps).bind fun g => resolveId g.db publicSession (CStr.lit "t")
        (CStr.lit "1")).isSome = true := by decide
  rw [hrun, Option.bind_some] at hselect hinsert hschema hid
  obtain ⟨run, hjoin, hrows⟩ := Option.map_eq_some_iff.mp hselect
  have hexec := Option.join_eq_some_iff.mp hjoin
  obtain ⟨db', hdb', hout⟩ := Option.map_eq_some_iff.mp hinsert
  obtain ⟨schema, hstored, hpk⟩ := Option.map_eq_some_iff.mp hschema
  obtain ⟨moved, hmoved⟩ := Option.isSome_iff_exists.mp hid
  refine ⟨g, run, db', hrun, hinserted, hexec, hrows, hdb', hout, ?_, ?_⟩
  · intro hnew
    obtain ⟨e, _, hmem, _⟩ := hnew publicSession selectEveryRow run rfl rfl hexec
      [CStr.lit "1", CStr.lit "a"] (by rw [hrows]; exact List.mem_singleton_self _)
    cases hmem
  · intro haccepts
    have haccepted := haccepts publicSession [CStr.lit "1", CStr.lit "b"] db' schema
      (CStr.lit "1") moved rfl hdb' hstored hpk hmoved List.not_mem_nil
    rw [hout] at haccepted
    exact absurd haccepted (by decide)

end Executor
end InventixDB
