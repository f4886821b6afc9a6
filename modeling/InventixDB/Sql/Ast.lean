import InventixDB.Executor.Ast

/-!
# Ast — the statements the parser builds

One constructor for each kind of command node, with the members of its union the parser sets.  An
expression and a SELECT contain each other: a scalar subquery is a SELECT.
-/

namespace InventixDB
namespace Sql

open Storage

/-- What one entry of a select list computes, `func_type`. -/
inductive FuncType
  | none | count | sum | avg | max | min
  deriving DecidableEq

/-- A column of a select list. -/
structure SelectColumn where
  value : CStr
  funcType : FuncType
  deriving DecidableEq

/-- What a SELECT says next to its WHERE clause. -/
structure SelectClauses where
  tableName : CStr
  columns : List SelectColumn
  groupBy : Option CStr
  orderColumns : List (CStr × Bool)
  limit : Int
  offset : Int
  deriving DecidableEq

/-- The nodes of a WHERE clause. -/
inductive Expr
  | binary (left : Expr) (op : CStr) (right : Expr)
  | literal (value : CStr)
  | identifier (value : CStr)
  | subquery (clauses : SelectClauses) (whereClause : Option Expr)

structure SelectStmt where
  clauses : SelectClauses
  whereClause : Option Expr

inductive AlterType
  | addColumn | dropColumn | renameColumn | modifyColumn | addConstraint | dropConstraint
  deriving DecidableEq

/-- What happens to rows that refer to a changed one. -/
inductive FkAction
  | none | cascade | restrict
  deriving DecidableEq

structure AlterTable where
  tableName : CStr
  columnName : Option CStr := .none
  newName : Option CStr := .none
  columnType : Option CStr := .none
  defaultValue : Option CStr := .none
  isNullable : Bool := false
  isUnique : Bool := false
  fkConstraintName : Option CStr := .none
  fkRefTable : Option CStr := .none
  fkRefColumn : Option CStr := .none
  fkOnDelete : FkAction := .none
  fkOnUpdate : FkAction := .none
  deriving DecidableEq

inductive BackupFormat
  | binary | sql | json | csv
  deriving DecidableEq

structure BackupRestore where
  path : CStr
  dbName : Option CStr
  tableName : Option CStr
  format : BackupFormat
  deriving DecidableEq

inductive ASTNode
  | createTable (tableName : CStr) (columns : List Executor.ColumnDef)
  | insert (tableName : CStr) (rows : List (List CStr))
  | select (stmt : SelectStmt)
  | delete (tableName : CStr) (whereClause : Option Expr)
  | update (tableName : CStr) (sets : List (CStr × CStr)) (whereClause : Option Expr)
  | dropTable (tableName : CStr)
  | docInsert (collection jsonBody : CStr)
  | docGet (collection : CStr) (docId : Option CStr)
  | docRemove (collection docId : CStr)
  | checkpoint
  | createIndex (tableName colName : CStr)
  | createUser (username password : CStr)
  | createDb (dbName : CStr)
  | showTables
  | useDb (dbName : CStr)
  | dropDb (dbName : CStr)
  | showDbs
  | begin
  | commit
  | rollback
  | savepoint (savepointName : CStr)
  | releaseSavepoint (savepointName : CStr)
  | rollbackTo (savepointName : CStr)
  | alterTable (type : AlterType) (alter : AlterTable)
  | backup (data : BackupRestore)
  | restore (data : BackupRestore)
  | exportTable (data : BackupRestore)
  | importTable (data : BackupRestore)
  | docUpsert (collection jsonBody : CStr)
  | docAggregate (collection : CStr) (pipelineStages : List CStr)
  | createCollection (collection : CStr)

end Sql
end InventixDB
