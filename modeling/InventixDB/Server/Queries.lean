import InventixDB.Server.Prepared
import InventixDB.Server.Security

/-!
# Queries — what a connection's query text makes the server do

`execute_client_query` takes its command word from the text of the first token.  The words it
compares with are keywords, whose tokens have no text, so the branches on the command word belong
to queries that start with a literal or another word.
-/

namespace InventixDB
namespace Server

open Storage
open Sql

/-! ## Data -/

inductive QuotaStatus
  | ok | warning | critical | exceeded
  deriving DecidableEq

/-- A connection, with the session its pointer refers to. -/
structure ClientConnection where
  session : Option Session
  authToken : CStr
  authenticated : Bool
  quota : Option QuotaStatus
  stmtStore : SessionStatementStore

/-- What the server does with a query: authorization checks, and statements it hands on. -/
inductive Event
  | authorizeCommand (cmdType : CStr) (granted : Bool)
  | executeQuery (ast : ASTNode)
  | distRouteQuery (ast : ASTNode) (query : CStr)

/-- The statement an event hands on. -/
def Event.statement : Event → Option ASTNode
  | .authorizeCommand _ _ => none
  | .executeQuery ast => some ast
  | .distRouteQuery ast _ => some ast

/-- How handling a query ends. -/
inductive Ending
  | returned | exited | undefined | running
  deriving DecidableEq

structure QueryRun where
  events : List Event
  stmtStore : SessionStatementStore
  ending : Ending

/-- What surrounds a query: whether the node is the master, whether `tmpfile()` succeeds, and how
floats are read. -/
structure ServerEnv where
  isMaster : Bool
  tmpfile : Bool
  readFloat : List UInt8 → CStr × List UInt8

/-! ## Texts -/

/-- `strstr(s, sub)`, as what is left of `s` from there on -/
def strstr (s sub : List UInt8) : Option (List UInt8) :=
  s.tails.find? fun t => sub.isPrefixOf t

/-- `strcasestr(s, word)` -/
def strcasestr (s : List UInt8) (word : String) : Option (List UInt8) :=
  s.tails.find? fun t => startsWithIgnoringCase word t

/-- The texts of the first token: the command word of the query. -/
def commandWord (tokens : List Token) : Option CStr :=
  tokens.head?.bind Token.value

def isCommand (words : List String) (cmdType : CStr) : Bool :=
  words.any fun word => CStr.sameIgnoringCase cmdType (CStr.lit word)

/-- The search for AS: the tokens behind it.  A token without a text on the way is compared as a
null pointer. -/
def tokensAfterAs : List Token → Option (List Token)
  | [] => none
  | t :: rest =>
      match t.value with
      | none => none
      | some v => if isCommand ["AS", "JAISE"] v then some rest else tokensAfterAs rest

/-! ## Commands on prepared statements -/

/-- Parsing ahead can end the process. -/
def endingOfParse (query : CStr) : Ending :=
  match parse (tokenize query) with
  | .ok _ _ => .returned
  | .null => .returned
  | .exit => .exited
  | .undefined => .undefined
  | .running => .running

/-- `PREPARE name AS query` -/
def prepareCommand (store : SessionStatementStore) (query : CStr) (tokens : List Token) :
    QueryRun :=
  if tokens.length < 4 then { events := [], stmtStore := store, ending := .returned }
  else
    match (tokensAfterAs (tokens.drop 2)).bind fun rest => rest.head?.bind Token.value with
    | none => { events := [], stmtStore := store, ending := .undefined }
    | some start =>
        match strstr query.val start.val, tokens[1]?.bind Token.value with
        | some template, some name =>
            match stmtPrepare store name (CStr.ofBytes template) with
            | none => { events := [], stmtStore := store, ending := .returned }
            | some store =>
                { events := []
                  stmtStore := store
                  ending := endingOfParse (parseQuery (CStr.ofBytes template)) }
        | _, _ => { events := [], stmtStore := store, ending := .returned }

/-- The parameters of `EXECUTE name USING (...)`. -/
def usingParameters (env : ServerEnv) (query : CStr) : List (Option Parameter) :=
  match (strcasestr query.val "USING").or (strcasestr query.val "ISTEMAL") with
  | none => []
  | some clause =>
      match clause.dropWhile (· ≠ 40) with
      | [] => []
      | rest => parseUsingClause env.readFloat maxParameters (CStr.ofBytes rest)

/-- What `EXECUTE` hands to `execute_client_query` again.  The outer `none` is a name without a
text, which the report prints, or a parameter that was never set: the loop that frees the strings
reads the type of each of them, whether the statement was found or not. -/
def executedText (env : ServerEnv) (store : SessionStatementStore) (query : CStr)
    (tokens : List Token) : Option (Option CStr) :=
  match tokens[1]? with
  | none => some none
  | some t =>
      match t.value with
      | none => none
      | some name =>
          let params := usingParameters env query
          if params.all Option.isSome then some (stmtExecute store name params.reduceOption)
          else none

/-- `DEALLOCATE name` -/
def deallocateCommand (store : SessionStatementStore) (tokens : List Token) : QueryRun :=
  match tokens[1]? with
  | none => { events := [], stmtStore := store, ending := .returned }
  | some t =>
      match t.value with
      | none => { events := [], stmtStore := store, ending := .undefined }
      | some name =>
          { events := []
            stmtStore := if isCommand ["ALL"] name then [] else stmtDeallocate store name
            ending := .returned }

/-- The text behind the first tokens, as `EXPLAIN` looks for it. -/
def textBehind : List Token → Option (List UInt8) → Option (Option (List UInt8))
  | [], text => some text
  | t :: rest, text =>
      match text, t.value with
      | some text, some v =>
          textBehind rest
            ((strstr text v.val).map fun found => (found.drop v.length).dropWhile CStr.isSpace)
      | _, _ => none

/-- `EXPLAIN [ANALYZE] query`: the query is parsed and planned, never executed. -/
def explainCommand (store : SessionStatementStore) (query : CStr) (tokens : List Token) :
    QueryRun :=
  match tokens[1]? with
  | none => { events := [], stmtStore := store, ending := .returned }
  | some t =>
      match t.value with
      | none => { events := [], stmtStore := store, ending := .undefined }
      | some v =>
          let queryStart := if isCommand ["ANALYZE"] v then 2 else 1
          let ending :=
            if tokens.length ≤ queryStart then .returned
            else
              match textBehind (tokens.take queryStart) (some query.val) with
              | none => .undefined
              | some none => .returned
              | some (some []) => .returned
              | some (some text) => endingOfParse (CStr.ofBytes text)
          { events := [], stmtStore := store, ending := ending }

/-! ## Queries -/

/-- The end of `execute_client_query`: parse the statement and hand it on. -/
def runStatement (env : ServerEnv) (conn : ClientConnection) (query : CStr) (before : List Event) :
    QueryRun :=
  match parse (tokenize query) with
  | .ok ast _ =>
      let handedOn :=
        if env.isMaster then [.distRouteQuery ast query]
        else if env.tmpfile then [.executeQuery ast] else []
      { events := before ++ handedOn, stmtStore := conn.stmtStore, ending := .returned }
  | .null => { events := before, stmtStore := conn.stmtStore, ending := .returned }
  | .exit => { events := before, stmtStore := conn.stmtStore, ending := .exited }
  | .undefined => { events := before, stmtStore := conn.stmtStore, ending := .undefined }
  | .running => { events := before, stmtStore := conn.stmtStore, ending := .running }

/-- `security_authorize_command(conn->session, cmd_type)` -/
def ClientConnection.authorize (conn : ClientConnection) (cmdType : CStr) : Bool :=
  match conn.session with
  | none => false
  | some session => session.authorizeCommand cmdType

/-- `execute_client_query`; `depth` bounds how often EXECUTE calls it again. -/
def executeClientQuery (env : ServerEnv) : Nat → ClientConnection → CStr → QueryRun
  | 0, conn, _ => { events := [], stmtStore := conn.stmtStore, ending := .running }
  | depth + 1, conn, query =>
      if !conn.authenticated then
        { events := [], stmtStore := conn.stmtStore, ending := .returned }
      else if conn.quota = some .exceeded then
        { events := [], stmtStore := conn.stmtStore, ending := .returned }
      else
        let tokens := tokenize query
        match commandWord tokens with
        | none => runStatement env conn query []
        | some cmdType =>
            if isCommand ["PREPARE", "TAYYAR"] cmdType then
              prepareCommand conn.stmtStore query tokens
            else if isCommand ["EXECUTE", "CHALAO"] cmdType then
              match executedText env conn.stmtStore query tokens with
              | none => { events := [], stmtStore := conn.stmtStore, ending := .undefined }
              | some none => { events := [], stmtStore := conn.stmtStore, ending := .returned }
              | some (some text) => executeClientQuery env depth conn text
            else if isCommand ["DEALLOCATE", "HATAO_TAYYAR"] cmdType then
              deallocateCommand conn.stmtStore tokens
            else if isCommand ["EXPLAIN", "SAMJHAO"] cmdType then
              explainCommand conn.stmtStore query tokens
            else if conn.authorize cmdType then
              runStatement env conn query [.authorizeCommand cmdType true]
            else
              { events := [.authorizeCommand cmdType false]
                stmtStore := conn.stmtStore
                ending := .returned }

/-! ## Mediation -/

/-- The permission a statement requires. -/
def statementPermission : ASTNode → Permission
  | .select _ => .select
  | .insert _ _ => .insert
  | .update _ _ _ => .update
  | .delete _ _ => .delete
  | .createTable _ _ => .createTable
  | .dropTable _ => .dropTable
  | .createDb _ => .createDb
  | .dropDb _ => .dropDb
  | .begin => .transaction
  | .commit => .transaction
  | .rollback => .transaction
  | .savepoint _ => .transaction
  | .releaseSavepoint _ => .transaction
  | .rollbackTo _ => .transaction
  | _ => .none

/-- Every statement handed on was preceded by a check of a command word that requires the
permission of the statement, and the check found it in the session. -/
def Mediated (session : Option Session) (events : List Event) : Prop :=
  ∀ before event after, events = before ++ event :: after →
    ∀ ast ∈ event.statement,
      ∃ cmdType, .authorizeCommand cmdType true ∈ before ∧
        requiredPermission cmdType = statementPermission ast ∧
          ∀ s ∈ session, s.hasPermission (statementPermission ast) = true

/-- The text a query stands for: itself, or what its EXECUTE makes of a prepared statement. -/
inductive StandsFor (env : ServerEnv) (store : SessionStatementStore) : CStr → CStr → Prop
  | itself (query : CStr) : StandsFor env store query query
  | execute {query text final : CStr} {cmdType : CStr} :
      commandWord (tokenize query) = some cmdType →
      isCommand ["PREPARE", "TAYYAR"] cmdType = false →
      isCommand ["EXECUTE", "CHALAO"] cmdType = true →
      executedText env store query (tokenize query) = some (some text) →
      StandsFor env store text final → StandsFor env store query final

/-- The connection may run statements, and the query stands for one the parser accepts. -/
def Runs (env : ServerEnv) (conn : ClientConnection) (query : CStr) : Prop :=
  conn.authenticated = true ∧ conn.quota ≠ some .exceeded ∧
    (env.isMaster = true ∨ env.tmpfile = true) ∧
      ∃ text ast ctx, StandsFor env conn.stmtStore query text ∧
        parse (tokenize text) = .ok ast ctx

/-- What `runStatement` hands on is the statement the query is. -/
theorem parse_of_runStatement {env : ServerEnv} {conn : ClientConnection} {query : CStr}
    {before : List Event} (hnone : ∀ event ∈ before, event.statement = none) {event : Event}
    (hevent : event ∈ (runStatement env conn query before).events) {ast : ASTNode}
    (hast : event.statement = some ast) :
    (env.isMaster = true ∨ env.tmpfile = true) ∧
      ∃ ctx, parse (tokenize query) = .ok ast ctx := by
  unfold runStatement at hevent
  have hbefore : event ∉ before := fun hmem => by
    rw [hnone event hmem] at hast
    cases hast
  cases hresult : parse (tokenize query) with
  | ok parsed ctx =>
      simp only [hresult, List.mem_append, hbefore, false_or] at hevent
      split at hevent
      · next hmaster =>
          rw [List.mem_singleton] at hevent
          subst hevent
          cases hast
          exact ⟨.inl hmaster, ctx, rfl⟩
      · split at hevent
        · next htmpfile =>
            rw [List.mem_singleton] at hevent
            subst hevent
            cases hast
            exact ⟨.inr htmpfile, ctx, rfl⟩
        · cases hevent
  | _ => exact absurd (by simpa [hresult] using hevent) hbefore

theorem prepareCommand_events (store : SessionStatementStore) (query : CStr)
    (tokens : List Token) : (prepareCommand store query tokens).events = [] := by
  unfold prepareCommand
  repeat' split
  all_goals rfl

theorem deallocateCommand_events (store : SessionStatementStore) (tokens : List Token) :
    (deallocateCommand store tokens).events = [] := by
  unfold deallocateCommand
  repeat' split
  all_goals rfl

theorem explainCommand_events (store : SessionStatementStore) (query : CStr)
    (tokens : List Token) : (explainCommand store query tokens).events = [] := by
  unfold explainCommand
  repeat' split
  all_goals rfl

/-- A statement that is handed on stands behind the query. -/
theorem standsFor_of_events {env : ServerEnv} {conn : ClientConnection} {query : CStr}
    {depth : Nat} {event : Event}
    (hevent : event ∈ (executeClientQuery env depth conn query).events) {ast : ASTNode}
    (hast : event.statement = some ast) :
    conn.authenticated = true ∧ conn.quota ≠ some .exceeded ∧
      (env.isMaster = true ∨ env.tmpfile = true) ∧
        ∃ text ctx, StandsFor env conn.stmtStore query text ∧
          parse (tokenize text) = .ok ast ctx := by
  induction depth generalizing query with
  | zero => simp [executeClientQuery] at hevent
  | succ depth ih =>
      rw [executeClientQuery] at hevent
      split at hevent
      · cases hevent
      · next hauth =>
          split at hevent
          · cases hevent
          · next hquota =>
              have hauth : conn.authenticated = true := by simpa using hauth
              have hself : (env.isMaster = true ∨ env.tmpfile = true) ∧
                  (∃ ctx, parse (tokenize query) = .ok ast ctx) →
                    (env.isMaster = true ∨ env.tmpfile = true) ∧
                      ∃ text ctx, StandsFor env conn.stmtStore query text ∧
                        parse (tokenize text) = .ok ast ctx :=
                fun ⟨henv, ctx, hparse⟩ => ⟨henv, query, ctx, .itself query, hparse⟩
              refine ⟨hauth, hquota, ?_⟩
              dsimp only at hevent
              cases hword : commandWord (tokenize query) with
              | none =>
                  rw [hword] at hevent
                  exact hself (parse_of_runStatement (by simp) hevent hast)
              | some cmdType =>
                  rw [hword] at hevent
                  dsimp only at hevent
                  split at hevent
                  · rw [prepareCommand_events] at hevent
                    cases hevent
                  · next hprepare =>
                      split at hevent
                      · next hexecute =>
                          split at hevent
                          · cases hevent
                          · cases hevent
                          · next text htext =>
                              obtain ⟨_, _, henv, final, ctx, hstands, hparse⟩ := ih hevent
                              exact ⟨henv, final, ctx,
                                .execute hword (Bool.eq_false_iff.mpr hprepare) hexecute htext
                                  hstands, hparse⟩
                      · split at hevent
                        · rw [deallocateCommand_events] at hevent
                          cases hevent
                        · split at hevent
                          · rw [explainCommand_events] at hevent
                            cases hevent
                          · split at hevent
                            · exact hself (parse_of_runStatement (by simp [Event.statement])
                                hevent hast)
                            · rw [List.mem_singleton] at hevent
                              subst hevent
                              cases hast

/-- Where no statement stands behind the query, nothing is handed on. -/
theorem events_of_not_runs {env : ServerEnv} {conn : ClientConnection} {query : CStr}
    (hno : ¬ Runs env conn query) (depth : Nat) :
    ∀ event ∈ (executeClientQuery env depth conn query).events, event.statement = none := by
  intro event hevent
  cases hast : event.statement with
  | none => rfl
  | some ast =>
      obtain ⟨hauth, hquota, henv, text, ctx, hstands, hparse⟩ := standsFor_of_events hevent hast
      exact absurd ⟨hauth, hquota, henv, text, ast, ctx, hstands, hparse⟩ hno

/-- A statement that is run is the only event: no check comes before it. -/
theorem events_of_runs {env : ServerEnv} {conn : ClientConnection} {query text : CStr}
    {ast : ASTNode} {ctx : ParserContext} (hauth : conn.authenticated = true)
    (hquota : conn.quota ≠ some .exceeded) (henv : env.isMaster = true ∨ env.tmpfile = true)
    (hstands : StandsFor env conn.stmtStore query text)
    (hparse : parse (tokenize text) = .ok ast ctx) :
    ∃ depth event, (executeClientQuery env depth conn query).events = [event] ∧
      event.statement = some ast := by
  induction hstands with
  | itself query =>
      have hword : commandWord (tokenize query) = none := value_of_parse hparse
      refine ⟨1, if env.isMaster then .distRouteQuery ast query else .executeQuery ast, ?_, ?_⟩
      · rw [executeClientQuery]
        simp only [hauth, Bool.not_true, Bool.false_eq_true, if_false, hquota, hword,
          runStatement, hparse, List.nil_append]
        cases hmaster : env.isMaster with
        | true => rfl
        | false =>
            have htmpfile : env.tmpfile = true := by simpa [hmaster] using henv
            simp [htmpfile]
      · cases env.isMaster <;> rfl
  | execute hword hprepare hexecute htext _ ih =>
      obtain ⟨depth, event, hevents, hstatement⟩ := ih hparse
      refine ⟨depth + 1, event, ?_, hstatement⟩
      rw [executeClientQuery]
      simp only [hauth, Bool.not_true, Bool.false_eq_true, if_false, hquota, hword, hprepare,
        hexecute, if_true, htext]
      exact hevents

/-- Mediation holds of a query exactly when it runs no statement at all. -/
theorem mediated_iff_not_runs (env : ServerEnv) (conn : ClientConnection) (query : CStr) :
    (∀ depth, Mediated conn.session (executeClientQuery env depth conn query).events) ↔
      ¬ Runs env conn query := by
  constructor
  · rintro hmediated ⟨hauth, hquota, henv, text, ast, ctx, hstands, hparse⟩
    obtain ⟨depth, event, hevents, hstatement⟩ :=
      events_of_runs hauth hquota henv hstands hparse
    obtain ⟨cmdType, hmem, _⟩ := hmediated depth [] event [] hevents ast hstatement
    cases hmem
  · intro hno depth before event after hevents ast hast
    have hnone := events_of_not_runs hno depth event (by rw [hevents]; simp)
    rw [hnone] at hast
    cases hast

/-- A connection whose session has no permission of a statement. -/
def guestConnection : ClientConnection where
  session := some { Session.zero with username := CStr.lit "guest", isAuthenticated := true }
  authToken := CStr.lit ""
  authenticated := true
  quota := none
  stmtStore := []

/-- A node of its own, without floats. -/
def plainEnv : ServerEnv where
  isMaster := false
  tmpfile := true
  readFloat := fun p => (CStr.lit "0", p.drop 1)

/-- A guest drops a table: the token for DROP has no text, so nothing is checked. -/
theorem drop_table_unmediated :
    guestConnection.authorize (CStr.lit "DROP TABLE") = false ∧
      (executeClientQuery plainEnv 1 guestConnection (CStr.lit "DROP TABLE t;")).events.map
          (fun event => event.statement.map statementPermission) =
        [some Permission.dropTable] ∧
      ¬ ∀ depth, Mediated guestConnection.session
        (executeClientQuery plainEnv depth guestConnection (CStr.lit "DROP TABLE t;")).events := by
  have hevents : (executeClientQuery plainEnv 1 guestConnection
      (CStr.lit "DROP TABLE t;")).events.map
        (fun event => event.statement.map statementPermission) =
          [some Permission.dropTable] := by decide +kernel
  refine ⟨by decide +kernel, hevents, fun hmediated => ?_⟩
  obtain ⟨event, hsingle, hpermission⟩ := List.map_eq_singleton_iff.mp hevents
  obtain ⟨ast, hast, _⟩ := Option.map_eq_some_iff.mp hpermission
  obtain ⟨cmdType, hmem, _⟩ := hmediated 1 [] event [] hsingle ast hast
  cases hmem

end Server
end InventixDB
