import InventixDB.Sql.Parser

/-!
# Prepared — prepared statements and their parameters

A statement keeps its text and the positions of its markers, which a scan of its own finds.
Executing it prints each parameter and copies the text in place of the marker.
-/

namespace InventixDB
namespace Server

open Storage
open Sql

/-! ## Parameters -/

/-- A bound parameter.  For a float it is the text `%g` prints. -/
inductive Parameter
  | null
  | int (value : Int64)
  | bool (value : Bool)
  | string (data : CStr)
  | float (printed : CStr)
  deriving DecidableEq

/-- What `%.*s` shows of a string whose length was cut down to an `int`; a negative precision
counts as none. -/
def shownString (data : CStr) : CStr :=
  let precision := (data.length : Int).bmod (2 ^ 32)
  if precision < 0 then data else CStr.ofBytes (data.val.take precision.toNat)

/-- `param_to_string` -/
def paramToString : Parameter → CStr
  | .null => CStr.lit "NULL"
  | .int value => CStr.snprintf 4096 (CStr.ofInt value.toInt)
  | .bool value => CStr.snprintf 4096 (CStr.lit (if value then "TRUE" else "FALSE"))
  | .string data => CStr.snprintf 4096 (CStr.lit "'" ++ shownString data ++ CStr.lit "'")
  | .float printed => CStr.snprintf 4096 printed

/-- The patterns `stmt_validate_param` looks for in the upper-case text. -/
def dangerous : List String :=
  ["';", "\"--", "/*", "*/", "@@", "@variable", "EXEC ", "EXECUTE ", "xp_", "sp_", "0x",
    "UNION ", "SELECT ", "INSERT ", "UPDATE ", "DELETE ", "DROP ", "CREATE ", "ALTER ",
    "GRANT ", "REVOKE "]

/-- `toupper`, in the C locale -/
def upperByte (c : UInt8) : UInt8 :=
  if 97 ≤ c && c ≤ 122 then c - 32 else c

/-- `stmt_validate_param` -/
def stmtValidateParam : Parameter → Bool
  | .string data =>
      !dangerous.any fun pattern =>
        CStr.contains (CStr.lit pattern) (CStr.ofBytes (data.val.map upperByte))
  | _ => true

/-! ## The USING clause -/

/-- `strtoll(p, &end, 10)`: the number and what follows it; without digits nothing is read. -/
def strtoll (p : List UInt8) : Int × List UInt8 :=
  let body := p.dropWhile CStr.isSpace
  let unsigned := match body with
    | 45 :: ds => ds
    | 43 :: ds => ds
    | ds => ds
  let digits := unsigned.takeWhile CStr.isDigit
  if digits = [] then (0, p)
  else if body.head? = some 45 then
    (max (-CStr.digitsValue digits) (-2 ^ 63), unsigned.dropWhile CStr.isDigit)
  else (min (CStr.digitsValue digits) (2 ^ 63 - 1), unsigned.dropWhile CStr.isDigit)

/-- `strncasecmp(p, word, strlen(word)) == 0` -/
def startsWithIgnoringCase (word : String) (p : List UInt8) : Bool :=
  ((CStr.lit word).val.map CStr.lowerByte).isPrefixOf (p.map CStr.lowerByte)

/-- One value of the clause and what follows it; an unknown one leaves its parameter unset.
`readFloat` is `strtod` with what `%g` prints of its result. -/
def usingValue (readFloat : List UInt8 → CStr × List UInt8) (p : List UInt8) :
    Option Parameter × List UInt8 :=
  match p with
  | [] => (none, [])
  | c :: rest =>
      if c = 39 ∨ c = 34 then
        (some (.string (CStr.ofBytes (rest.takeWhile (· ≠ c)))),
          (rest.dropWhile (· ≠ c)).drop 1)
      else if c = 45 ∨ CStr.isDigit c then
        if 46 ∈ p then
          let number := readFloat p
          (some (.float number.1), number.2)
        else
          let number := strtoll p
          (some (.int (Int64.ofInt number.1)), number.2)
      else if startsWithIgnoringCase "NULL" p then (some .null, p.drop 4)
      else if startsWithIgnoringCase "TRUE" p then (some (.bool true), p.drop 4)
      else if startsWithIgnoringCase "FALSE" p then (some (.bool false), p.drop 5)
      else (none, p.dropWhile fun b => b ≠ 44 && b ≠ 41)

/-- The loop of `parse_using_clause`, with room for so many more parameters. -/
def usingValues (readFloat : List UInt8 → CStr × List UInt8) :
    Nat → List UInt8 → List (Option Parameter)
  | 0, _ => []
  | room + 1, p =>
      if p.head? = none ∨ p.head? = some 41 then []
      else
        let p := p.dropWhile CStr.isSpace
        if p.head? = none ∨ p.head? = some 41 then []
        else
          let value := usingValue readFloat p
          value.1 ::
            usingValues readFloat room (value.2.dropWhile fun b => CStr.isSpace b || b == 44)

/-- `parse_using_clause` -/
def parseUsingClause (readFloat : List UInt8 → CStr × List UInt8) (maxParams : Nat)
    (usingStr : CStr) : List (Option Parameter) :=
  usingValues readFloat maxParams
    (usingStr.val.dropWhile fun b => CStr.isSpace b || b == 40)

/-! ## Markers -/

/-- `MAX_PARAMETERS` -/
def maxParameters : Nat := 32

/-- The scan of `find_parameters`: `before` is the byte before, `quote` the quote of the string
the scan believes to be in, `room` the number of markers it may still record. -/
def findParametersFrom (pos : Nat) (before quote : Option UInt8) :
    Nat → List UInt8 → List Nat
  | 0, _ => []
  | _, [] => []
  | room + 1, c :: rest =>
      let quote :=
        if (c = 39 ∨ c = 34) ∧ before ≠ some 92 then
          match quote with
          | none => some c
          | some q => if c = q then none else some q
        else quote
      if quote = none ∧ c = 63 then
        pos :: findParametersFrom (pos + 1) (some c) quote room rest
      else findParametersFrom (pos + 1) (some c) quote (room + 1) rest

/-- `find_parameters` -/
def findParameters (query : CStr) : List Nat :=
  findParametersFrom 0 none none maxParameters query.val

/-- The loop of `substitute_parameters`. -/
def substituteFrom (pos : Nat) : List Nat → List Parameter → List UInt8 → List UInt8
  | _, _, [] => []
  | position :: positions, param :: params, c :: rest =>
      if pos = position then
        (paramToString param).val ++ substituteFrom (pos + 1) positions params rest
      else c :: substituteFrom (pos + 1) (position :: positions) (param :: params) rest
  | positions, params, c :: rest => c :: substituteFrom (pos + 1) positions params rest

/-- `substitute_parameters` -/
def substituteParameters (template : CStr) (positions : List Nat) (params : List Parameter) :
    CStr :=
  CStr.ofBytes (substituteFrom 0 positions params template.val)

/-! ## The statements of a session -/

/-- A prepared statement; its positions are those the scan finds in its text. -/
structure PreparedStatement where
  name : CStr
  queryTemplate : CStr
  paramPositions : List Nat
  positions_eq : paramPositions = findParameters queryTemplate

/-- The statements of a connection, at most `MAX_PREPARED_STMTS`. -/
abbrev SessionStatementStore := List PreparedStatement

def maxPreparedStmts : Nat := 256

/-- `stmt_find` -/
def stmtFind (store : SessionStatementStore) (name : CStr) : Option PreparedStatement :=
  store.find? fun stmt => stmt.name = name

/-- The text that is parsed in advance: a `0` stands in place of each marker. -/
def parseQuery (query : CStr) : CStr :=
  CStr.ofBytes (query.val.mapIdx fun i c => if i ∈ findParameters query then 48 else c)

/-- `stmt_prepare`: the store with the new statement.  The advance parse decides nothing, but it
can end the process, and then so does this. -/
def stmtPrepare (store : SessionStatementStore) (name query : CStr) :
    Option SessionStatementStore :=
  if (stmtFind store name).isSome ∨ maxPreparedStmts ≤ store.length then none
  else
    some (store ++
      [{ name := CStr.snprintf 64 name
         queryTemplate := query
         paramPositions := findParameters query
         positions_eq := rfl }])

/-- `stmt_execute`: the text with the parameters in it. -/
def stmtExecute (store : SessionStatementStore) (name : CStr) (params : List Parameter) :
    Option CStr :=
  match stmtFind store name with
  | none => none
  | some stmt =>
      if params.length ≠ stmt.paramPositions.length then none
      else if !params.all stmtValidateParam then none
      else some (substituteParameters stmt.queryTemplate stmt.paramPositions params)

/-- `stmt_deallocate` -/
def stmtDeallocate (store : SessionStatementStore) (name : CStr) : SessionStatementStore :=
  store.eraseP fun stmt => stmt.name = name

end Server
end InventixDB
