import InventixDB.Sql.Ast
import InventixDB.Sql.Lexer

/-!
# Parser — from tokens to a statement

A parse ends in one of four ways: with a node, with NULL after an error, with `exit(1)`, or with
undefined behaviour where the source copies or prints the missing text of a keyword or writes past a
buffer.
Loops carry a bound; `running` says that it was used up.
-/

namespace InventixDB
namespace Sql

open Storage

/-- `rounds` is no part of the source: it bounds the loops. -/
structure ParserContext where
  tokens : List Token
  current : Nat
  rounds : Nat := tokens.length + 1

inductive Result (α : Type)
  | ok (value : α) (ctx : ParserContext)
  | null
  | exit
  | undefined
  | running

def Parser (α : Type) := ParserContext → Result α

namespace Parser

variable {α β : Type}

protected def pure (a : α) : Parser α :=
  fun ctx => .ok a ctx

protected def bind (p : Parser α) (f : α → Parser β) : Parser β :=
  fun ctx =>
    match p ctx with
    | .ok a ctx => f a ctx
    | .null => .null
    | .exit => .exit
    | .undefined => .undefined
    | .running => .running

instance : Monad Parser where
  pure := Parser.pure
  bind := Parser.bind

/-- `longjmp`, or an early `return NULL` -/
def fail : Parser α :=
  fun _ => .null

def exit : Parser α :=
  fun _ => .exit

def undefined : Parser α :=
  fun _ => .undefined

def running : Parser α :=
  fun _ => .running

/-! ## Tokens -/

/-- `current_token`: past the end it is the last token. -/
def currentToken : Parser Token :=
  fun ctx =>
    match ctx.tokens[ctx.current]?, ctx.tokens.getLast? with
    | some t, _ => .ok t ctx
    | none, some last => .ok last ctx
    | none, none => .undefined

def currentType : Parser LexerTokenType := do
  return (← currentToken).type

def advance : Parser Unit :=
  fun ctx =>
    .ok () { ctx with
      current := if ctx.current < ctx.tokens.length then ctx.current + 1 else ctx.current }

/-- `match` -/
def tryMatch (type : LexerTokenType) : Parser Bool := do
  if (← currentType) = type then
    advance
    return true
  else
    return false

def consume (type : LexerTokenType) : Parser Token := do
  let t ← currentToken
  if t.type = type then
    advance
    return t
  else
    fail

/-- `strdup(t->value)` -/
def text (t : Token) : Parser CStr :=
  match t.value with
  | some v => return v
  | none => undefined

def consumeText (type : LexerTokenType) : Parser CStr := do
  text (← consume type)

/-- `if (current_token(ctx)->type == type) consume(ctx, type)` -/
def skip (type : LexerTokenType) : Parser Unit := do
  let _ ← tryMatch type

/-! ## Loops -/

def bound : Parser Nat :=
  fun ctx => .ok ctx.rounds ctx

/-- A loop whose body says whether it goes on. -/
def iterate (body : α → Parser (α × Bool)) : Nat → α → Parser α
  | 0, _ => running
  | fuel + 1, a => do
      let r ← body a
      if r.2 then iterate body fuel r.1 else return r.1

def loop (body : α → Parser (α × Bool)) (a : α) : Parser α := do
  iterate body (← bound) a

/-- `item, item, ...` -/
def commaList (item : Parser α) : Parser (List α) :=
  loop (fun items => do
    let a ← item
    return (items ++ [a], ← tryMatch .comma)) []

/-- `strcat` to a buffer of `size` bytes -/
def strcat (size : Nat) (buffer s : CStr) : Parser CStr :=
  if (buffer ++ s).length < size then return buffer ++ s else undefined

end Parser

open InventixDB.Sql.Parser

/-! ## Expressions -/

/-- `left op right op right ...` -/
def parseLogical (type : LexerTokenType) (op : CStr) (operand : Parser Expr) : Parser Expr := do
  loop (fun left => do
    if (← currentType) = type then
      let _ ← consume type
      let right ← operand
      return (.binary left op right, true)
    else
      return (left, false)) (← operand)

def parseLogicalAnd (comparison : Parser Expr) : Parser Expr :=
  parseLogical .kwAnd (CStr.lit "AND") comparison

def parseLogicalOr (comparison : Parser Expr) : Parser Expr :=
  parseLogical .kwOr (CStr.lit "OR") (parseLogicalAnd comparison)

/-- One entry of a select list. -/
def parseSelectColumn : Parser SelectColumn := do
  let funcType : FuncType :=
    match ← currentType with
    | .kwCount => .count
    | .kwSum => .sum
    | .kwAvg => .avg
    | .kwMax => .max
    | .kwMin => .min
    | _ => .none
  if funcType ≠ .none then
    advance
    let _ ← consume .lparen
  let value ←
    if funcType = .count ∧ (← currentType) = .star then do
      let _ ← consume .star
      pure (CStr.lit "*")
    else
      consumeText .identifier
  if funcType ≠ .none then
    let _ ← consume .rparen
  return { value := value, funcType := funcType }

def parseOrderColumn : Parser (CStr × Bool) := do
  let column ← consumeText .identifier
  if ← tryMatch .kwDesc then
    return (column, true)
  skip .kwAsc
  return (column, false)

/-- `parse_select` up to its semicolon -/
def parseSelectBody (expression : Parser Expr) : Parser SelectStmt := do
  let _ ← consume .kwSelect
  skip .kwKaro
  let columns ←
    if (← currentType) = .star then do
      let _ ← consume .star
      pure [{ value := CStr.lit "*", funcType := .none }]
    else
      commaList parseSelectColumn
  let _ ← consume .kwFrom
  let tableName ← consumeText .identifier
  let whereClause ← if ← tryMatch .kwJahan then pure (some (← expression)) else pure none
  let groupBy ←
    if ← tryMatch .kwGroup then do
      let _ ← consume .kwBy
      pure (some (← consumeText .identifier))
    else
      pure none
  let orderColumns ←
    if ← tryMatch .kwOrder then do
      let _ ← consume .kwBy
      commaList parseOrderColumn
    else
      pure []
  let (limit, offset) ←
    if ← tryMatch .kwLimit then do
      let limit ← consumeText .intLiteral
      let offset ←
        if ← tryMatch .kwOffset then pure (CStr.atoi (← consumeText .intLiteral)) else pure 0
      pure (CStr.atoi limit, offset)
    else
      pure (-1, 0)
  return {
    clauses := {
      tableName := tableName
      columns := columns
      groupBy := groupBy
      orderColumns := orderColumns
      limit := limit
      offset := offset }
    whereClause := whereClause }

/-- The operator of a comparison; any other token ends the process. -/
def parseOperator : Parser CStr := do
  let type ← currentType
  if type = .equals ∨ type = .gt ∨ type = .lt then consumeText type else exit

/-- The value a column is compared with. -/
def parseOperand (expression : Parser Expr) : Parser Expr := do
  let type ← currentType
  if type = .lparen then
    let peek : Parser LexerTokenType :=
      fun ctx =>
        match ctx.tokens[ctx.current + 1]? with
        | some t => .ok t.type ctx
        | none => .undefined
    if (← peek) = .kwSelect then
      let _ ← consume .lparen
      let stmt ← parseSelectBody expression
      let _ ← consume .rparen
      return .subquery stmt.clauses stmt.whereClause
    else
      exit
  else if type = .intLiteral ∨ type = .string ∨ type = .floatLiteral then
    return .literal (← consumeText type)
  else
    exit

/-- `parse_comparison`; the bound counts the parentheses it is inside of. -/
def parseComparison : Nat → Parser Expr
  | 0 => running
  | fuel + 1 => do
      let expression := parseLogicalOr (parseComparison fuel)
      if ← tryMatch .lparen then
        let node ← expression
        let _ ← consume .rparen
        return node
      else
        let column ← consumeText .identifier
        let op ← parseOperator
        return .binary (.identifier column) op (← parseOperand expression)

def parseExpression : Parser Expr := do
  parseLogicalOr (parseComparison (← bound))

/-- `[JAHAN expr]` -/
def parseWhere : Parser (Option Expr) := do
  if ← tryMatch .kwJahan then return some (← parseExpression) else return none

/-! ## Tables and rows -/

def parseSelect : Parser ASTNode := do
  let stmt ← parseSelectBody parseExpression
  let _ ← consume .semicolon
  return .select stmt

/-- A column type, in the words of the source. -/
def columnTypeText : LexerTokenType → Option CStr
  | .kwInt => CStr.lit "INT"
  | .kwFloat => CStr.lit "FLOAT"
  | .kwStringType => CStr.lit "STRING"
  | .kwTextType => CStr.lit "TEXT"
  | .kwBoolType => CStr.lit "BOOL"
  | _ => none

def parseColumnDef : Parser Executor.ColumnDef := do
  let name ← consumeText .identifier
  match columnTypeText (← currentType) with
  | none => fail
  | some type =>
      advance
      let isPk ← tryMatch .kwPrimary
      if isPk then
        skip .kwKey
      return { name := name, type := type, isPk := isPk }

def parseCreateTable : Parser ASTNode := do
  skip .kwTable
  skip .kwBanao
  let name ← consumeText .identifier
  let _ ← consume .lparen
  let columns ← commaList parseColumnDef
  let _ ← consume .rparen
  let _ ← consume .semicolon
  return .createTable name columns

def parseInsertValue : Parser CStr := do
  let type ← currentType
  if type = .kwAuto then
    advance
    return CStr.lit "AUTO"
  else if type = .string ∨ type = .intLiteral ∨ type = .floatLiteral ∨ type = .identifier then
    consumeText type
  else
    fail

def parseInsertRow : Parser (List CStr) := do
  let _ ← consume .lparen
  let values ← commaList parseInsertValue
  let _ ← consume .rparen
  return values

def parseInsert : Parser ASTNode := do
  let _ ← consume .kwInsert
  if !(← tryMatch .kwKaro) then
    skip .kwInto
  let name ← consumeText .identifier
  let _ ← consume .kwValues
  let rows ← commaList parseInsertRow
  let _ ← consume .semicolon
  return .insert name rows

def parseDelete : Parser ASTNode := do
  let _ ← consume .kwNikalo
  skip .kwFrom
  let table ← consumeText .identifier
  let whereClause ← parseWhere
  let _ ← consume .semicolon
  return .delete table whereClause

def parseAssignment : Parser (CStr × CStr) := do
  let col ← consumeText .identifier
  let _ ← consume .equals
  let val ← currentToken
  if val.type = .string ∨ val.type = .intLiteral ∨ val.type = .floatLiteral ∨
      val.type = .identifier then
    let value ← text val
    advance
    return (col, value)
  else
    fail

def parseUpdate : Parser ASTNode := do
  let _ ← consume .kwUpdate
  let table ← consumeText .identifier
  let _ ← consume .kwSet
  let sets ← commaList parseAssignment
  let whereClause ←
    if ← tryMatch .kwJahan then pure (some (← parseExpression))
    else do
      if ← tryMatch .kwWhere then pure (some (← parseExpression)) else pure none
  let _ ← consume .semicolon
  return .update table sets whereClause

def parseDropTable : Parser ASTNode := do
  match ← currentType with
  | .kwTable =>
      advance
      if !(← tryMatch .kwGirao) then
        skip .kwDrop
  | .kwDrop =>
      advance
      let _ ← consume .kwTable
  | _ =>
      let _ ← consume .kwGirao
      let _ ← consume .kwTable
  let name ← consumeText .identifier
  let _ ← consume .semicolon
  return .dropTable name

def parseCreateIndex : Parser ASTNode := do
  let _ ← consume .kwIndex
  let _ ← consume .kwOn
  let table ← consumeText .identifier
  let _ ← consume .lparen
  let col ← consumeText .identifier
  let _ ← consume .rparen
  let _ ← consume .semicolon
  return .createIndex table col

/-! ## Users and databases -/

def parseCreateUser : Parser ASTNode := do
  let _ ← consume .kwUser
  skip .kwBanao
  let username ← consumeText .identifier
  let _ ← consume .kwPassword
  let password ← consumeText .string
  let _ ← consume .semicolon
  return .createUser username password

def parseCreateDb : Parser ASTNode := do
  let _ ← consume .kwDatabase
  skip .kwBanao
  let db ← consumeText .identifier
  let _ ← consume .semicolon
  return .createDb db

def parseDropDb : Parser ASTNode := do
  skip .kwDatabase
  skip .kwHatao
  let db ← consumeText .identifier
  let _ ← consume .semicolon
  return .dropDb db

def parseShowDbs : Parser ASTNode := do
  skip .kwShow
  let _ ← consume .kwDatabase
  let _ ← consume .semicolon
  return .showDbs

def parseShowTables : Parser ASTNode := do
  let _ ← consume .kwShow
  let _ ← consume .kwTables
  let _ ← consume .semicolon
  return .showTables

/-- `parse_use_db`: the name is copied before its type is checked. -/
def parseUseDb : Parser ASTNode := do
  let _ ← consume .kwUse
  skip .kwDatabase
  let name ← text (← currentToken)
  let _ ← consume .identifier
  skip .semicolon
  return .useDb name

/-! ## Transactions -/

def parseCheckpoint : Parser ASTNode := do
  let _ ← consume .kwCheckpoint
  let _ ← consume .semicolon
  return .checkpoint

def parseBegin : Parser ASTNode := do
  if !(← tryMatch .kwBegin) then
    if ← tryMatch .kwStart then
      let _ ← consume .kwTransaction
  skip .kwTransaction
  skip .semicolon
  return .begin

def parseCommit : Parser ASTNode := do
  let _ ← consume .kwCommit
  skip .kwTransaction
  skip .semicolon
  return .commit

def parseRollback : Parser ASTNode := do
  let _ ← consume .kwRollback
  if ← tryMatch .kwTo then
    skip .kwSavepoint
    let name ← consumeText .identifier
    skip .semicolon
    return .rollbackTo name
  skip .kwTransaction
  skip .semicolon
  return .rollback

def parseSavepoint : Parser ASTNode := do
  let _ ← consume .kwSavepoint
  let name ← consumeText .identifier
  skip .semicolon
  return .savepoint name

def parseReleaseSavepoint : Parser ASTNode := do
  let _ ← consume .kwRelease
  skip .kwSavepoint
  let name ← consumeText .identifier
  skip .semicolon
  return .releaseSavepoint name

/-! ## Changing tables -/

/-- A column type of ALTER TABLE: the text copied is the missing one of the keyword. -/
def parseAlteredType : Parser CStr := do
  let type ← currentType
  if (columnTypeText type).isSome then consumeText type else fail

/-- `[NOT NULL] [DEFAULT value] [UNIQUE] ...` -/
def parseColumnConstraint (alter : AlterTable) : Parser (AlterTable × Bool) := do
  match ← currentType with
  | .kwNot =>
      advance
      let _ ← consume .kwNull
      return ({ alter with isNullable := false }, true)
  | .kwDefault =>
      advance
      let value ← currentToken
      if value.type = .string ∨ value.type = .intLiteral ∨ value.type = .floatLiteral then
        let defaultValue ← text value
        advance
        return ({ alter with defaultValue := some defaultValue }, true)
      else
        return (alter, true)
  | .kwUnique =>
      advance
      return ({ alter with isUnique := true }, true)
  | _ => return (alter, false)

def parseFkAction (before : FkAction) : Parser FkAction := do
  if ← tryMatch .kwCascade then return .cascade
  if ← tryMatch .kwRestrict then return .restrict
  return before

/-- `[ON DELETE action] [ON UPDATE action] ...` -/
def parseReferenceAction (alter : AlterTable) : Parser (AlterTable × Bool) := do
  if ← tryMatch .kwOn then
    if ← tryMatch .kwDelete then
      return ({ alter with fkOnDelete := ← parseFkAction alter.fkOnDelete }, true)
    if ← tryMatch .kwUpdate then
      return ({ alter with fkOnUpdate := ← parseFkAction alter.fkOnUpdate }, true)
    return (alter, true)
  return (alter, false)

def parseAddColumn (table : CStr) : Parser ASTNode := do
  skip .kwColumn
  let col ← consumeText .identifier
  let type ← parseAlteredType
  let alter ← loop parseColumnConstraint
    { tableName := table, columnName := some col, columnType := some type, isNullable := true }
  return .alterTable .addColumn alter

def parseAddConstraint (table : CStr) : Parser ASTNode := do
  let _ ← consume .kwConstraint
  let name ← consumeText .identifier
  let _ ← consume .kwForeign
  let _ ← consume .kwKey
  let _ ← consume .lparen
  let col ← consumeText .identifier
  let _ ← consume .rparen
  let _ ← consume .kwReferences
  let refTable ← consumeText .identifier
  let _ ← consume .lparen
  let refColumn ← consumeText .identifier
  let _ ← consume .rparen
  let alter ← loop parseReferenceAction
    { tableName := table, columnName := some col, fkConstraintName := some name
      fkRefTable := some refTable, fkRefColumn := some refColumn }
  return .alterTable .addConstraint alter

/-- What follows the table name; `none` is the node that stays NULL. -/
def parseAlteration (table : CStr) : Parser (Option ASTNode) := do
  match ← currentType with
  | .kwAdd =>
      advance
      match ← currentType with
      | .kwColumn | .identifier => return some (← parseAddColumn table)
      | .kwConstraint => return some (← parseAddConstraint table)
      | _ => return none
  | .kwDrop =>
      advance
      if ← tryMatch .kwColumn then
        let col ← consumeText .identifier
        return some (.alterTable .dropColumn { tableName := table, columnName := some col })
      if ← tryMatch .kwConstraint then
        let name ← consumeText .identifier
        return some
          (.alterTable .dropConstraint { tableName := table, fkConstraintName := some name })
      return none
  | .kwRename =>
      advance
      let _ ← consume .kwColumn
      let oldName ← consumeText .identifier
      let _ ← consume .kwTo
      let newName ← consumeText .identifier
      return some (.alterTable .renameColumn
        { tableName := table, columnName := some oldName, newName := some newName })
  | .kwModify =>
      advance
      skip .kwColumn
      let col ← consumeText .identifier
      let type ← parseAlteredType
      return some (.alterTable .modifyColumn
        { tableName := table, columnName := some col, columnType := some type })
  | _ => return none

def parseAlterTable : Parser ASTNode := do
  if ← tryMatch .kwAlter then
    let _ ← consume .kwTable
  let table ← consumeText .identifier
  let node ← parseAlteration table
  let _ ← consume .semicolon
  match node with
  | some node => return node
  | none => fail

/-! ## Files -/

/-- `[DATABASE [name]]` -/
def parseDatabaseName : Parser (Option CStr) := do
  if ← tryMatch .kwDatabase then
    if (← currentType) = .identifier then
      return some (← consumeText .identifier)
  return none

def parseBackup : Parser ASTNode := do
  let _ ← consume .kwBackup
  let dbName ← parseDatabaseName
  let _ ← consume .kwTo
  let path ← consumeText .string
  let format : BackupFormat ←
    if ← tryMatch .kwFormat then do
      let fmt ← consumeText .identifier
      pure (if CStr.sameIgnoringCase fmt (CStr.lit "SQL") then .sql
        else if CStr.sameIgnoringCase fmt (CStr.lit "JSON") then .json
        else if CStr.sameIgnoringCase fmt (CStr.lit "CSV") then .csv
        else .binary)
    else
      pure .binary
  let _ ← consume .semicolon
  return .backup { path := path, dbName := dbName, tableName := none, format := format }

def parseRestore : Parser ASTNode := do
  let _ ← consume .kwRestore
  let dbName ← parseDatabaseName
  let _ ← consume .kwFrom
  let path ← consumeText .string
  let _ ← consume .semicolon
  return .restore { path := path, dbName := dbName, tableName := none, format := .binary }

def parseExport : Parser ASTNode := do
  let _ ← consume .kwExport
  let _ ← consume .kwTable
  let table ← consumeText .identifier
  let _ ← consume .kwTo
  let path ← consumeText .string
  let format : BackupFormat ←
    if ← tryMatch .kwFormat then do
      let fmt ← consumeText .identifier
      pure (if CStr.sameIgnoringCase fmt (CStr.lit "JSON") then .json else .csv)
    else
      pure .csv
  let _ ← consume .semicolon
  return .exportTable { path := path, dbName := none, tableName := some table, format := format }

def parseImport : Parser ASTNode := do
  let _ ← consume .kwImport
  let _ ← consume .kwTable
  let table ← consumeText .identifier
  let _ ← consume .kwFrom
  let path ← consumeText .string
  let _ ← consume .semicolon
  return .importTable { path := path, dbName := none, tableName := some table, format := .binary }

/-! ## Documents -/

/-- The texts of the tokens up to the closing brace, each followed by a blank, in a buffer of
`size` bytes. -/
def parseBraces (size : Nat) : Parser CStr := do
  let _ ← consume .lbrace
  let r ← loop (fun (s : CStr × Nat) => do
    let t ← currentToken
    if s.2 = 0 ∨ t.type = .eof then
      return (s, false)
    let depth :=
      if t.type = .lbrace then s.2 + 1 else if t.type = .rbrace then s.2 - 1 else s.2
    if depth = 0 then
      advance
      return ((s.1, depth), true)
    let buffer ← strcat size s.1 (← text t)
    let buffer ← strcat size buffer (CStr.lit " ")
    advance
    return ((buffer, depth), true)) (CStr.lit "\x7b", 1)
  strcat size r.1 (CStr.lit "\x7d")

/-- The body of a document insert, which does not count braces. -/
def parseFlatBraces (size : Nat) : Parser CStr := do
  let _ ← consume .lbrace
  let buffer ← loop (fun (buffer : CStr) => do
    let t ← currentToken
    if t.type = .rbrace ∨ t.type = .eof then
      return (buffer, false)
    let buffer ← strcat size buffer (← text t)
    let buffer ← strcat size buffer (CStr.lit " ")
    advance
    return (buffer, true)) (CStr.lit "\x7b")
  let _ ← consume .rbrace
  strcat size buffer (CStr.lit "\x7d")

def parseDocInsert : Parser ASTNode := do
  let _ ← consume .kwRakho
  let collection ← consumeText .identifier
  let body ←
    if (← currentType) = .lbrace then parseFlatBraces 1024 else consumeText .string
  let _ ← consume .semicolon
  return .docInsert collection body

/-- An optional document id. -/
def parseDocId : Parser (Option CStr) := do
  let type ← currentType
  if type = .string ∨ type = .intLiteral then return some (← consumeText type) else return none

def parseDocGet : Parser ASTNode := do
  let _ ← consume .kwMangwao
  let collection ← consumeText .identifier
  let docId ← parseDocId
  let _ ← consume .semicolon
  return .docGet collection docId

def parseDhundo : Parser ASTNode := do
  let _ ← consume .kwDhundo
  let collection ← consumeText .identifier
  let docId ←
    if ← tryMatch .kwJahan then do
      let _ ← consume .identifier
      let _ ← consume .equals
      match ← parseDocId with
      | some docId => pure (some docId)
      | none => pure (some (← consumeText .identifier))
    else
      parseDocId
  let _ ← consume .semicolon
  return .docGet collection docId

def parseDocRemove : Parser ASTNode := do
  let _ ← consume .kwHatao
  let collection ← consumeText .identifier
  match ← parseDocId with
  | none => fail
  | some docId =>
      let _ ← consume .semicolon
      return .docRemove collection docId

def parseCreateCollection : Parser ASTNode := do
  let _ ← consume .kwCollection
  let name ← consumeText .identifier
  let _ ← consume .semicolon
  return .createCollection name

def parseFind : Parser ASTNode := do
  let _ ← consume .kwFind
  let collection ← consumeText .identifier
  let filter ←
    if (← currentType) = .lbrace then pure (some (← parseBraces 1024)) else pure none
  let _ ← consume .semicolon
  return .docGet collection filter

def parseUpsert : Parser ASTNode := do
  let _ ← consume .kwUpsert
  let collection ← consumeText .identifier
  let body ← if (← currentType) = .lbrace then parseBraces 2048 else consumeText .string
  let _ ← consume .semicolon
  return .docUpsert collection body

/-- `[ {...}, {...} ]`; a token that is neither a stage nor a comma is never consumed. -/
def parseStages : Parser (List CStr) := do
  let _ ← consume .lbracket
  let stages ← loop (fun (stages : List CStr) => do
    let type ← currentType
    if type = .rbracket ∨ type = .eof then
      return (stages, false)
    let stages ←
      if type = .lbrace then do
        let stage ← parseBraces 1024
        pure (stages ++ [stage])
      else
        pure stages
    skip .comma
    return (stages, true)) []
  let _ ← consume .rbracket
  return stages

def parseAggregate : Parser ASTNode := do
  let _ ← consume .kwAggregate
  let collection ← consumeText .identifier
  let stages ← if (← currentType) = .lbracket then parseStages else pure []
  let _ ← consume .semicolon
  return .docAggregate collection stages

/-! ## Statements -/

/-- The type of the token after the current one. -/
def nextType : Parser (Option LexerTokenType) :=
  fun ctx => .ok (ctx.tokens[ctx.current + 1]?.map Token.type) ctx

/-- What follows CREATE or BANAO. -/
def parseCreate : Parser ASTNode := do
  advance
  match ← currentType with
  | .kwIndex => parseCreateIndex
  | .kwUser => parseCreateUser
  | .kwDatabase => parseCreateDb
  | .kwCollection => parseCreateCollection
  | .kwTable => parseCreateTable
  | _ => fail

/-- DROP or GIRAO, of a table or a database. -/
def parseDrop : Parser ASTNode := do
  advance
  if (← currentType) = .kwDatabase then parseDropDb else parseDropTable

/-- The statement that starts with the token. -/
def parseFrom (t : Token) : Parser ASTNode := do
  match t.type with
  | .kwUse => parseUseDb
  | .kwCreate | .kwBanao => parseCreate
  | .kwShow =>
      if (← nextType) = some .kwDatabase then
        advance
        parseShowDbs
      else
        parseShowTables
  | .kwKey => fail
  | .kwUser => parseCreateUser
  | .kwDatabase =>
      match ← nextType with
      | some .kwHatao | some .kwGirao =>
          advance
          parseDropDb
      | _ => parseCreateDb
  | .kwTable => if (← nextType) = some .kwGirao then parseDropTable else parseCreateTable
  | .kwInsert => parseInsert
  | .kwSelect => parseSelect
  | .kwDhundo => parseDhundo
  | .kwRakho => parseDocInsert
  | .kwMangwao => parseDocGet
  | .kwHatao => parseDocRemove
  | .kwNikalo => parseDelete
  | .kwUpdate => parseUpdate
  | .kwDrop | .kwGirao => parseDrop
  | .kwDelete =>
      advance
      if (← currentType) = .kwDatabase then parseDropDb else fail
  | .kwCheckpoint => parseCheckpoint
  | .kwIndex => parseCreateIndex
  | .kwBegin | .kwStart => parseBegin
  | .kwCommit => parseCommit
  | .kwRollback => parseRollback
  | .kwSavepoint => parseSavepoint
  | .kwRelease => parseReleaseSavepoint
  | .kwAlter => parseAlterTable
  | .kwBackup => parseBackup
  | .kwRestore => parseRestore
  | .kwExport => parseExport
  | .kwImport => parseImport
  | .kwFind => parseFind
  | .kwUpsert => parseUpsert
  | .kwAggregate => parseAggregate
  | .identifier =>
      if CStr.sameIgnoringCase (← text t) (CStr.lit "CREATE") then
        advance
        if (← currentType) = .kwIndex then parseCreateIndex else fail
      else
        fail
  | _ =>
      -- the report prints the text, which a keyword and the end do not have
      let _ ← text t
      fail

def parseStatement : Parser ASTNode := do
  parseFrom (← currentToken)

/-- The parse whose loops make at most `rounds` rounds. -/
def parseWithin (rounds : Nat) (tokens : List Token) : Result ASTNode :=
  parseStatement { tokens := tokens, current := 0, rounds := rounds }

/-- A loop that consumes a token in each round makes no more rounds than this. -/
def parse (tokens : List Token) : Result ASTNode :=
  parseWithin (tokens.length + 1) tokens

/-! ## What a success says -/

section Success

variable {α β : Type} {ctx ctx' : ParserContext}

theorem ok_of_bind {p : Parser α} {f : α → Parser β} {b : β}
    (hok : (p >>= f) ctx = .ok b ctx') :
    ∃ a ctx₁, p ctx = .ok a ctx₁ ∧ f a ctx₁ = .ok b ctx' := by
  change Parser.bind p f ctx = .ok b ctx' at hok
  unfold Parser.bind at hok
  split at hok
  · next a ctx₁ hp => exact ⟨a, ctx₁, hp, hok⟩
  all_goals cases hok

theorem currentToken_ok {t : Token} (hok : currentToken ctx = .ok t ctx') :
    t ∈ ctx.tokens ∧ ctx' = ctx := by
  unfold currentToken at hok
  split at hok
  · next hget =>
      cases hok
      exact ⟨List.mem_of_getElem? hget, rfl⟩
  · next hlast =>
      cases hok
      exact ⟨List.mem_of_getLast? hlast, rfl⟩
  · cases hok

theorem consume_ok {type : LexerTokenType} {t : Token} (hok : consume type ctx = .ok t ctx') :
    t ∈ ctx.tokens ∧ t.type = type ∧ ctx'.tokens = ctx.tokens := by
  obtain ⟨cur, ctx₁, hcur, hrest⟩ := ok_of_bind hok
  obtain ⟨hmem, hctx⟩ := currentToken_ok hcur
  split at hrest
  · next htype =>
      cases hrest
      rw [hctx]
      exact ⟨hmem, htype, rfl⟩
  · cases hrest

end Success

/-! ## How a statement starts -/

/-- A statement starts with a keyword: no token list whose first token has a text is one. -/
theorem parse_of_text {t : Token} {rest : List Token} {v : CStr} (hfits : t.TextFits)
    (hv : t.value = some v) : parse (t :: rest) = .null := by
  obtain ⟨htype, hidentifier⟩ := hfits v hv
  obtain ⟨type, value, line⟩ := t
  cases hv
  by_cases hword : type = .identifier
  · subst hword
    -- the test for CREATE never succeeds: the lexer makes a keyword of that word
    have hcreate : CStr.sameIgnoringCase v (CStr.lit "CREATE") = false := by
      refine Bool.eq_false_iff.mpr fun hsame => ?_
      exact checkKeyword_ne_identifier (k := ("CREATE", .kwCreate)) (by decide) hsame
        (hidentifier rfl)
    simp [parse, parseWithin, parseStatement, parseFrom, bind, Parser.bind, currentToken, text,
      pure,
      Parser.pure, fail, hcreate]
  · simp only [textTypes, List.mem_cons, hword, false_or, List.not_mem_nil, or_false] at htype
    rcases htype with rfl | rfl | rfl | rfl | rfl | rfl | rfl | rfl | rfl | rfl | rfl | rfl |
      rfl | rfl | rfl | rfl <;> rfl

/-- A query that parses has no text in its first token. -/
theorem value_of_parse {query : CStr} {node : ASTNode} {ctx : ParserContext}
    (hparse : parse (tokenize query) = .ok node ctx) :
    (tokenize query).head?.bind Token.value = none := by
  have hfits := tokenize_textFits query
  cases htokens : tokenize query with
  | nil => rfl
  | cons t rest =>
      rw [htokens] at hparse hfits
      cases hv : t.value with
      | none => exact hv
      | some v =>
          rw [parse_of_text (hfits t List.mem_cons_self) hv] at hparse
          cases hparse

end Sql
end InventixDB
