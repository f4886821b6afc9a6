import InventixDB.Storage.MapRefinement

/-!
# Ast — statements as the executor receives them

One constructor for each kind of node the executor handles itself.  Statements carried out by
other modules (SELECT and its relatives, the document queries, backup and restore) appear as
`foreign`, with the store calls they make and the session context they leave.
-/

namespace InventixDB
namespace Executor

open Storage

structure ColumnDef where
  name : CStr
  type : CStr
  isPk : Bool
  deriving DecidableEq

/-- The condition of a WHERE clause. -/
inductive ASTExpr
  | binary (left : ASTExpr) (op : CStr) (right : ASTExpr)
  | literal (value : CStr)
  | identifier (value : CStr)
  | subquery
  deriving DecidableEq

/-- What reading `data.literal.value` of a node yields.  For a subquery the same bytes hold a
pointer to the inner SELECT node, whose first byte is its type. -/
def ASTExpr.literalValue : ASTExpr → Option CStr
  | .literal value => some value
  | .identifier value => some value
  | .subquery => some (CStr.ofBytes [2, 0, 0, 0])
  | .binary _ _ _ => none

inductive ASTNode
  | createTable (tableName : CStr) (columns : List ColumnDef)
  | insert (tableName : CStr) (rows : List (List CStr))
  | delete (tableName : CStr) (whereClause : Option ASTExpr)
  | update (tableName : CStr) (sets : List (CStr × CStr)) (whereClause : Option ASTExpr)
  | dropTable (tableName : CStr)
  | docInsert (collection jsonBody : CStr)
  | docRemove (collection docId : CStr)
  | checkpoint
  | createIndex (tableName colName : CStr)
  | createUser (username password : CStr)
  | createDb (dbName : CStr)
  | useDb (dbName : CStr)
  | dropDb (dbName : CStr)
  | begin
  | commit
  | rollback
  | rollbackTo (savepointName : CStr)
  | savepoint (savepointName : CStr)
  | releaseSavepoint (savepointName : CStr)
  | foreign (calls : List KVCall) (currentDb : CStr)
  deriving DecidableEq

structure SessionContext where
  currentDb : CStr
  currentUser : CStr
  deriving DecidableEq

/-! ## Keys -/

/-- `sys_generate_key_table` -/
def sysGenerateKeyTable (db table pk : CStr) : Option CStr :=
  CStr.sprintf 512
    (CStr.lit "DB:" ++ db ++ CStr.lit ":TBL:" ++ table ++ CStr.lit ":" ++ pk)

/-- `sys_generate_key_schema` -/
def sysGenerateKeySchema (db table : CStr) : Option CStr :=
  CStr.sprintf 512 (CStr.lit "DB:" ++ db ++ CStr.lit ":META:TBL:" ++ table)

/-- `sys_generate_key_seq` -/
def sysGenerateKeySeq (db table : CStr) : Option CStr :=
  CStr.sprintf 512 (CStr.lit "DB:" ++ db ++ CStr.lit ":SEQ:" ++ table)

end Executor
end InventixDB
