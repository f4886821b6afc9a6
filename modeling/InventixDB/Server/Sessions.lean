import InventixDB.Transaction.Lifecycle
import InventixDB.Transaction.Rollback

/-!
# Sessions — several clients, one transaction manager

The server runs the statements of all its sessions on one store and one transaction manager.
Neither the open transaction nor its records say whose they are; here two history variables do,
the session that began the transaction and a label on every record.  Nothing stops another
session from logging into the open transaction or from ending it.  Sessions that keep apart by
themselves (`Exclusive`) are isolated.
-/

namespace InventixDB
namespace Server

open Storage
open Executor
open Transaction

variable {ι : Type*} [DecidableEq ι] {n : Nat} [NeZero n]

/-! ## Interleaved statements -/

/-- The server with its sessions.  `owner` and `log` are history variables: who began the open
transaction, and its undo log with the session that made each record. -/
structure Sessions (ι : Type*) (n : Nat) where
  db : Db n
  ctx : ι → SessionContext
  owner : Option ι
  log : List (ι × TxnOperation)

/-- The undo log of the open transaction. -/
def openRecords (txn : Option Txn) : List TxnOperation :=
  match txn with
  | some txn => txn.operations
  | none => []

/-- Label what session `i` has put on top of the log, or drop the labels of what is gone. -/
def relabel (i : ι) (log : List (ι × TxnOperation)) (operations : List TxnOperation) :
    List (ι × TxnOperation) :=
  (operations.take (operations.length - log.length)).map (i, ·) ++
    log.drop (log.length - operations.length)

/-- `execute_client_query` for session `i`. -/
def Sessions.step (s : Sessions ι n) (i : ι) (stmt : ASTNode) : Option (Sessions ι n) :=
  (executeQuery s.db (s.ctx i) stmt).map fun r =>
    { db := r.1
      ctx := Function.update s.ctx i r.2
      owner :=
        match s.db.txnManager.currentTxn, r.1.txnManager.currentTxn with
        | _, none => none
        | none, some _ => some i
        | some _, some _ => s.owner
      log := relabel i s.log (openRecords r.1.txnManager.currentTxn) }

/-- Sessions connected to a server without an open transaction. -/
def connected (db : Db n) (ctx : ι → SessionContext) : Sessions ι n where
  db := db
  ctx := ctx
  owner := none
  log := []

/-- The history variables follow the transaction manager. -/
structure Tracked (s : Sessions ι n) : Prop where
  active : ∀ txn ∈ s.db.txnManager.currentTxn, txn.state = .active
  owner : s.owner.isSome = s.db.txnManager.currentTxn.isSome
  log : s.log.map Prod.snd = openRecords s.db.txnManager.currentTxn

omit [DecidableEq ι] in
theorem relabel_push (i : ι) (log : List (ι × TxnOperation)) (recs : List TxnOperation) :
    relabel i log (recs ++ log.map Prod.snd) = recs.map (i, ·) ++ log := by
  unfold relabel
  rw [List.length_append, List.length_map, Nat.add_sub_cancel, List.take_left,
    Nat.sub_eq_zero_of_le (Nat.le_add_left _ _), List.drop_zero]

omit [DecidableEq ι] in
theorem relabel_drop (i : ι) (log : List (ι × TxnOperation)) {k : Nat} (hk : k ≤ log.length) :
    relabel i log ((log.map Prod.snd).drop k) = log.drop k := by
  unfold relabel
  rw [List.length_drop, List.length_map, Nat.sub_eq_zero_of_le (Nat.sub_le _ _), List.take_zero,
    Nat.sub_sub_self hk]
  rfl

/-! ## Isolation -/

/-- What the statement may do to the open transaction: a ROLLBACK undoes records of its own
session only, and neither COMMIT nor ROLLBACK ends a transaction of another one. -/
def IsolatedAt (s : Sessions ι n) (i : ι) (stmt : ASTNode) : Prop :=
  (stmt = .rollback → s.log.map Prod.snd = openRecords s.db.txnManager.currentTxn ∧
      ∀ e ∈ s.log, e.1 = i) ∧
    (stmt = .commit ∨ stmt = .rollback →
      ∀ j ∈ s.owner, ∀ s' ∈ s.step i stmt, s'.owner = none → j = i)

instance (s : Sessions ι n) (i : ι) (stmt : ASTNode) : Decidable (IsolatedAt s i stmt) := by
  unfold IsolatedAt
  infer_instance

/-- Every statement of the interleaving keeps isolation where it is executed. -/
def IsolatedRun : Sessions ι n → List (ι × ASTNode) → Prop
  | _, [] => True
  | s, (i, stmt) :: run =>
      IsolatedAt s i stmt ∧ ∀ s' ∈ s.step i stmt, IsolatedRun s' run

instance decidableIsolatedRun : (s : Sessions ι n) → (run : List (ι × ASTNode)) →
    Decidable (IsolatedRun s run)
  | _, [] => isTrue trivial
  | _, (_, _) :: run =>
      haveI : DecidablePred fun s' : Sessions ι n => IsolatedRun s' run :=
        fun s' => decidableIsolatedRun s' run
      inferInstanceAs (Decidable (_ ∧ _))

/-! ## Sessions that keep apart -/

/-- Who is in a transaction, and whether another session has issued a logged statement in it. -/
structure Turn (ι : Type*) where
  owner : ι
  mixed : Bool

def nextTurn (turn : Option (Turn ι)) (i : ι) (stmt : ASTNode) : Option (Turn ι) :=
  match turn with
  | none => if stmt = .begin then some { owner := i, mixed := false } else none
  | some turn =>
      if stmt = .commit ∨ stmt = .rollback then none
      else some { turn with mixed := turn.mixed || (stmt.isLogged && i ≠ turn.owner) }

/-- While a transaction is open, COMMIT and ROLLBACK come from its session, and ROLLBACK only if
no other session has issued a logged statement since BEGIN. -/
def Allowed (turn : Option (Turn ι)) (i : ι) (stmt : ASTNode) : Prop :=
  ∀ t ∈ turn, (stmt = .commit ∨ stmt = .rollback → t.owner = i) ∧
    (stmt = .rollback → t.mixed = false)

instance (turn : Option (Turn ι)) (i : ι) (stmt : ASTNode) : Decidable (Allowed turn i stmt) := by
  unfold Allowed
  infer_instance

/-- A condition on the interleaving alone. -/
def Exclusive : Option (Turn ι) → List (ι × ASTNode) → Prop
  | _, [] => True
  | turn, (i, stmt) :: run => Allowed turn i stmt ∧ Exclusive (nextTurn turn i stmt) run

instance decidableExclusive : (turn : Option (Turn ι)) → (run : List (ι × ASTNode)) →
    Decidable (Exclusive turn run)
  | _, [] => isTrue trivial
  | turn, (i, stmt) :: run =>
      haveI := decidableExclusive (nextTurn turn i stmt) run
      inferInstanceAs (Decidable (_ ∧ _))

/-- The turn tells who is in a transaction, and that its records are all theirs. -/
def InTurn (s : Sessions ι n) (turn : Option (Turn ι)) : Prop :=
  s.owner = turn.map Turn.owner ∧
    ∀ t ∈ turn, t.mixed = false → ∀ e ∈ s.log, e.1 = t.owner

/-- One statement keeps the history variables and the turn right. -/
theorem Tracked.step {s s' : Sessions ι n} {turn : Option (Turn ι)} {i : ι} {stmt : ASTNode}
    (ht : Tracked s) (hturn : InTurn s turn) (hstep : s.step i stmt = some s') :
    Tracked s' ∧ InTurn s' (nextTurn turn i stmt) := by
  obtain ⟨⟨db', ctx'⟩, hexec, rfl⟩ := Option.map_eq_some_iff.mp hstep
  have htxn := executeQuery_txnStep hexec
  obtain ⟨howner, hown⟩ := hturn
  obtain ⟨hactive, hsome, hlog⟩ := ht
  cases hbefore : s.db.txnManager.currentTxn with
  | none =>
      rw [hbefore] at htxn hsome hlog
      have hnolog : s.log = [] := List.map_eq_nil_iff.mp hlog
      have hnoturn : turn = none := by
        rw [howner] at hsome
        simpa using hsome
      subst hnoturn
      cases hafter : db'.txnManager.currentTxn with
      | none =>
          rw [hafter] at htxn
          cases htxn with
          | idle hbegin =>
              refine ⟨⟨?_, ?_, ?_⟩, ?_, ?_⟩ <;>
                simp [hafter, hnolog, relabel, openRecords, nextTurn, hbegin]
      | some txn =>
          rw [hafter] at htxn
          cases htxn with
          | begun hbegin hstate hoperations _ =>
              refine ⟨⟨?_, ?_, ?_⟩, ?_, ?_⟩ <;>
                simp [hafter, hnolog, relabel, openRecords, nextTurn, hbegin, hstate,
                  hoperations]
  | some txn =>
      rw [hbefore] at htxn hsome hlog
      have hstate : txn.state = .active := hactive txn hbefore
      obtain ⟨t, rfl⟩ : ∃ t, turn = some t := by
        rw [howner] at hsome
        exact Option.isSome_iff_exists.mp (by simpa using hsome)
      cases hafter : db'.txnManager.currentTxn with
      | none =>
          rw [hafter] at htxn
          cases htxn with
          | ended hend _ =>
              refine ⟨⟨?_, ?_, ?_⟩, ?_, ?_⟩ <;>
                simp [hafter, relabel, openRecords, nextTurn, hend]
      | some txn' =>
          rw [hafter] at htxn
          have hopen : ¬ (stmt = .commit ∨ stmt = .rollback) ∧ txn'.state = .active ∧
              (relabel i s.log txn'.operations).map Prod.snd = txn'.operations ∧
              ((stmt.isLogged = true → i = t.owner) → t.mixed = false →
                ∀ e ∈ relabel i s.log txn'.operations, e.1 = t.owner) := by
            cases htxn with
            | @kept _ _ recs hpushed hlogged hend =>
                have hrelabel : relabel i s.log txn'.operations = recs.map (i, ·) ++ s.log := by
                  rw [hpushed.operations, ← relabel_push, hlog]
                  rfl
                rw [hrelabel]
                refine ⟨fun h => hend h hstate, hpushed.state.trans hstate, ?_, ?_⟩
                · rw [List.map_append, hlog, hpushed.operations]
                  simp [openRecords]
                · intro hi hmixed e he
                  rcases List.mem_append.mp he with he | he
                  · obtain ⟨op, hop, rfl⟩ := List.mem_map.mp he
                    exact hi (hlogged (List.ne_nil_of_mem hop))
                  · exact hown t rfl hmixed e he
            | @cut _ _ k _ hname hcut =>
                subst hname
                have hlen : k ≤ s.log.length := by
                  have hmap := congrArg List.length hlog
                  rw [List.length_map] at hmap
                  rw [hmap]
                  exact hcut.le
                have hrelabel : relabel i s.log txn'.operations = s.log.drop k := by
                  rw [hcut.operations, ← relabel_drop i s.log hlen, hlog]
                  rfl
                rw [hrelabel]
                refine ⟨by simp, hcut.state.trans hstate, ?_, ?_⟩
                · rw [List.map_drop, hlog, hcut.operations]
                  rfl
                · intro _ hmixed e he
                  exact hown t rfl hmixed e (List.mem_of_mem_drop he)
          obtain ⟨hneither, hstate', hlog', hown'⟩ := hopen
          refine ⟨⟨?_, ?_, ?_⟩, ?_, ?_⟩
          · intro txn'' ht''
            rw [hafter] at ht''
            cases ht''
            exact hstate'
          · simp [hafter, howner]
          · rw [hafter]
            exact hlog'
          · simp [howner, nextTurn, hneither]
          · intro t' ht' hmixed
            rw [nextTurn, if_neg hneither] at ht'
            cases ht'
            rw [Bool.or_eq_false_iff] at hmixed
            refine hown' (fun hlogged => ?_) hmixed.1
            simpa [hlogged] using hmixed.2

/-- One allowed statement is isolated. -/
theorem Tracked.isolatedAt {s : Sessions ι n} {turn : Option (Turn ι)} {i : ι} {stmt : ASTNode}
    (ht : Tracked s) (hturn : InTurn s turn) (hallowed : Allowed turn i stmt) :
    IsolatedAt s i stmt := by
  obtain ⟨howner, hown⟩ := hturn
  constructor
  · intro hrollback
    refine ⟨ht.log, ?_⟩
    intro e he
    have hsome : s.owner.isSome = true := by
      rw [ht.owner, Option.isSome_iff_ne_none]
      intro hnone
      have hlog := ht.log
      rw [hnone] at hlog
      rw [List.map_eq_nil_iff.mp hlog] at he
      cases he
    rw [howner, Option.isSome_map] at hsome
    obtain ⟨t, rfl⟩ := Option.isSome_iff_exists.mp hsome
    obtain ⟨hends, hmixed⟩ := hallowed t rfl
    exact (hown t rfl (hmixed hrollback) e he).trans (hends (Or.inr hrollback))
  · intro hend j hj _ _ _
    rw [howner] at hj
    obtain ⟨t, ht, rfl⟩ := Option.map_eq_some_iff.mp hj
    exact (hallowed t ht).1 hend

theorem Tracked.isolatedRun {s : Sessions ι n} {turn : Option (Turn ι)}
    {run : List (ι × ASTNode)} (ht : Tracked s) (hturn : InTurn s turn)
    (hexclusive : Exclusive turn run) : IsolatedRun s run := by
  induction run generalizing s turn with
  | nil => trivial
  | cons item run ih =>
      obtain ⟨hallowed, hrest⟩ := hexclusive
      refine ⟨ht.isolatedAt hturn hallowed, ?_⟩
      intro s' hstep
      obtain ⟨ht', hturn'⟩ := ht.step hturn hstep
      exact ih ht' hturn' hrest

/-- Sessions that keep apart are isolated, whatever statements they interleave. -/
theorem exclusive_isolated (db : Db n) (ctx : ι → SessionContext) (run : List (ι × ASTNode))
    (hidle : db.txnManager.currentTxn = none) (hexclusive : Exclusive none run) :
    IsolatedRun (connected db ctx) run := by
  refine Tracked.isolatedRun ⟨?_, ?_, ?_⟩ ⟨rfl, by simp⟩ hexclusive
  · simp [connected, hidle]
  · simp [connected, hidle]
  · simp [connected, hidle, openRecords]

theorem exclusive_isolated_turns :
    IsolatedRun (connected tableDb fun _ : Bool => publicSession)
      [(true, .begin), (true, .insert (CStr.lit "t") [[CStr.lit "2", CStr.lit "b"]]),
        (false, .begin), (false, .docRemove (CStr.lit "c") (CStr.lit "1")), (true, .rollback),
        (false, .begin), (true, .delete (CStr.lit "t") (idIs "1")), (false, .commit)] :=
  exclusive_isolated tableDb (fun _ => publicSession) _ (by decide +kernel) (by decide)

/-- A row inserted by one session goes with the other one's ROLLBACK, and a COMMIT of one session
ends the transaction the other began. -/
theorem rollback_undoes_foreign_insert :
    ¬ IsolatedRun (connected tableDb fun _ : Bool => publicSession)
        [(true, .begin), (false, .insert (CStr.lit "t") [[CStr.lit "2", CStr.lit "b"]]),
          (true, .rollback)] ∧
      ¬ IsolatedRun (connected tableDb fun _ : Bool => publicSession)
        [(true, .begin), (false, .commit)] := by
  refine ⟨by decide +kernel, by decide +kernel⟩

end Server
end InventixDB
