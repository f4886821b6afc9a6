import InventixDB.Sql.Phrases

/-!
# Conditions — what a query reads, and where its condition breaks off

The parser of a comparison exits where an operator or an operand is missing.  A comparison can hold
a query and a query a condition, so that this can happen at any depth.
-/

namespace InventixDB
namespace Sql

open Storage
open Lib
open Lib.Phrase
open InventixDB.Sql.Parser

variable {α β : Type} {ts : TokenStream}

namespace Grammar

/-! ## Queries -/

/-- `column`, `FUNC(column)` or `COUNT(*)` -/
def SelectColumn : Phrase Token :=
  Either (OfType [.kwCount])
    (seq [Tok .lparen, Either (OfType [.star]) (seq []) (Tok .identifier), Tok .rparen])
    (Either (OfType [.kwSum, .kwAvg, .kwMax, .kwMin])
      (seq [Tok .lparen, Tok .identifier, Tok .rparen])
      (Tok .identifier))

def SelectColumns : Phrase Token :=
  Either (OfType [.star]) (seq []) (Separated (OfType [.comma]) SelectColumn)

/-- A query up to its condition. -/
def selectHead : List (Phrase Token) :=
  [Tok .kwSelect, Maybe [.kwKaro], SelectColumns, Tok .kwFrom, Tok .identifier]

def OrderColumn : Phrase Token :=
  seq [Tok .identifier, Maybe [.kwDesc, .kwAsc]]

/-- `GROUP BY`, `ORDER BY` and `LIMIT` -/
def selectTail : List (Phrase Token) :=
  [Optional (OfType [.kwGroup]) (seq [Tok .kwBy, Tok .identifier]),
    Optional (OfType [.kwOrder]) (seq [Tok .kwBy, Separated (OfType [.comma]) OrderColumn]),
    Optional (OfType [.kwLimit])
      (seq [Tok .intLiteral, Optional (OfType [.kwOffset]) (Tok .intLiteral)])]

/-- A query whose condition, if it has one, is `E`. -/
inductive SelectBody (E : Phrase Token) : Phrase Token
  | read {before condition tail behind : List Token} (hhead : seq selectHead before condition)
      (hcondition : Either (OfType [.kwJahan]) E (seq []) condition tail)
      (htail : seq selectTail tail behind) : SelectBody E before behind

/-! ## Conditions -/

def operators : List LexerTokenType :=
  [.equals, .gt, .lt]

def literals : List LexerTokenType :=
  [.intLiteral, .string, .floatLiteral]

/-- `(condition)`, `column op literal` or `column op (query)` -/
inductive Comparison : Phrase Token
  | parens {before inner close behind : List Token} (hopen : Tok .lparen before inner)
      (hcondition :
        Separated (OfType [.kwOr]) (Separated (OfType [.kwAnd]) Comparison) inner close)
      (hclose : Tok .rparen close behind) : Comparison before behind
  | literal {before behind : List Token}
      (hread : seq [Tok .identifier, One (OfType operators), One (OfType literals)] before behind) :
      Comparison before behind
  | subquery {before query close behind : List Token}
      (hread : seq [Tok .identifier, One (OfType operators), Tok .lparen] before query)
      (hquery :
        SelectBody (Separated (OfType [.kwOr]) (Separated (OfType [.kwAnd]) Comparison)) query
          close)
      (hclose : Tok .rparen close behind) : Comparison before behind

def Condition : Phrase Token :=
  Separated (OfType [.kwOr]) (Separated (OfType [.kwAnd]) Comparison)

/-- A comparison without its operator or its operand, or with a condition inside that breaks off. -/
inductive ComparisonBreaks : Breaks Token
  | parens {before : List Token}
      (hbreaks : Behind [Tok .lparen]
        (SeparatedBreaks (OfType [.kwOr]) (Separated (OfType [.kwAnd]) Comparison)
          (SeparatedBreaks (OfType [.kwAnd]) Comparison ComparisonBreaks)) before) :
      ComparisonBreaks before
  | operator {before : List Token}
      (hbreaks : Behind [Tok .identifier] (fun mid => ¬ Starts (OfType operators) mid) before) :
      ComparisonBreaks before
  | operand {before : List Token}
      (hbreaks : Behind [Tok .identifier, One (OfType operators)]
        (fun mid => ¬ Starts (OfType (.lparen :: literals)) mid) before) :
      ComparisonBreaks before
  | query {before : List Token}
      (hbreaks : Behind [Tok .identifier, One (OfType operators), Tok .lparen]
        (fun mid => ¬ Starts (OfType [.kwSelect]) mid) before) :
      ComparisonBreaks before
  | subquery {before : List Token}
      (hbreaks : Behind [Tok .identifier, One (OfType operators), Tok .lparen]
        (Behind (selectHead ++ [Tok .kwJahan])
          (SeparatedBreaks (OfType [.kwOr]) (Separated (OfType [.kwAnd]) Comparison)
            (SeparatedBreaks (OfType [.kwAnd]) Comparison ComparisonBreaks))) before) :
      ComparisonBreaks before

def ConditionBreaks : Breaks Token :=
  SeparatedBreaks (OfType [.kwOr]) (Separated (OfType [.kwAnd]) Comparison)
    (SeparatedBreaks (OfType [.kwAnd]) Comparison ComparisonBreaks)

/-- A query whose condition breaks off. -/
def SelectBreaks (B : Breaks Token) : Breaks Token :=
  Behind (selectHead ++ [Tok .kwJahan]) B

end Grammar

open Grammar

/-! ## The parts of a query -/

/-- A function call behind the name of the function. -/
def parseCall (funcType : FuncType) : Parser SelectColumn := do
  let _ ← consume .lparen
  let value ←
    if funcType = .count ∧ (← currentType) = .star then do
      let _ ← consume .star
      pure (CStr.lit "*")
    else
      consumeText .identifier
  let _ ← consume .rparen
  return { value := value, funcType := funcType }

def parseSelectColumns : Parser (List SelectColumn) := do
  if (← currentType) = .star then
    let _ ← consume .star
    return [{ value := CStr.lit "*", funcType := .none }]
  else
    commaList parseSelectColumn

def parseFilter (expression : Parser Expr) : Parser (Option Expr) := do
  if ← tryMatch .kwJahan then return some (← expression) else return none

def parseGroupBy : Parser (Option CStr) := do
  if ← tryMatch .kwGroup then
    let _ ← consume .kwBy
    return some (← consumeText .identifier)
  else
    return none

def parseOrderBy : Parser (List (CStr × Bool)) := do
  if ← tryMatch .kwOrder then
    let _ ← consume .kwBy
    commaList parseOrderColumn
  else
    return []

def parseOffset : Parser Int := do
  if ← tryMatch .kwOffset then return CStr.atoi (← consumeText .intLiteral) else return 0

def parseLimit : Parser (Int × Int) := do
  if ← tryMatch .kwLimit then
    let limit ← consumeText .intLiteral
    let offset ← parseOffset
    return (CStr.atoi limit, offset)
  else
    return (-1, 0)

theorem parseSelectBody_eq (expression : Parser Expr) : parseSelectBody expression = (do
    let _ ← consume .kwSelect
    skip .kwKaro
    let columns ← parseSelectColumns
    let _ ← consume .kwFrom
    let tableName ← consumeText .identifier
    let whereClause ← parseFilter expression
    let groupBy ← parseGroupBy
    let orderColumns ← parseOrderBy
    let limits ← parseLimit
    return {
      clauses := {
        tableName := tableName
        columns := columns
        groupBy := groupBy
        orderColumns := orderColumns
        limit := limits.1
        offset := limits.2 }
      whereClause := whereClause }) := by
  simp only [parseSelectBody, parseSelectColumns, parseFilter, parseGroupBy, parseOrderBy,
    parseLimit, parseOffset, bind_assoc, pure_bind, ite_bind]

section Select

variable {room : Nat} {E : Phrase Token} {B B' : Breaks Token}

theorem follows_countCall : Follows ts (parseCall .count)
    (seq [Tok .lparen, Either (OfType [.star]) (seq []) (Tok .identifier), Tok .rparen]) := by
  have hvalue : Follows ts (do
      if (← currentType) = .star then do
        let _ ← consume .star
        pure (CStr.lit "*")
      else
        consumeText .identifier) (Either (OfType [.star]) (seq []) (Tok .identifier)) :=
    follows_peek (by decide) (fun _ => follows_pure _) (follows_consumeText _ (by decide))
  have hcall : Follows ts _ _ := (follows_consume .lparen (by decide)).bind fun _ =>
    hvalue.bind fun value => (follows_consume .rparen (by decide)).bind fun _ =>
      follows_pure ({ value := value, funcType := .count } : SelectColumn)
  simpa only [parseCall, true_and, bind_assoc, pure_bind, ite_bind] using hcall

theorem follows_call {funcType : FuncType} (hcount : funcType ≠ .count) :
    Follows ts (parseCall funcType) (seq [Tok .lparen, Tok .identifier, Tok .rparen]) := by
  simp only [parseCall, hcount, false_and, if_false]
  refine (follows_consume .lparen (by decide)).bind fun _ => ?_
  refine .of_currentType fun ctx t rest hctx _ => ?_
  have hrest : Follows ts _ _ := (follows_consumeText .identifier (by decide)).bind fun value =>
    (follows_consume .rparen (by decide)).bind fun _ =>
      follows_pure ({ value := value, funcType := funcType } : SelectColumn)
  exact hrest ctx hctx

/-- The function of a column, by its token. -/
def columnFunc : LexerTokenType → FuncType
  | .kwCount => .count
  | .kwSum => .sum
  | .kwAvg => .avg
  | .kwMax => .max
  | .kwMin => .min
  | _ => .none

theorem parseSelectColumn_eq : parseSelectColumn = (do
    let type ← currentType
    if columnFunc type ≠ .none then
      advance
      parseCall (columnFunc type)
    else
      let _ ← currentType
      let value ← consumeText .identifier
      return { value := value, funcType := .none }) := by
  unfold parseSelectColumn
  refine congrArg (currentType >>= ·) (funext fun type => ?_)
  extract_lets +lift funcType behindValue behindParen
  have hfunc : funcType = columnFunc type := rfl
  simp only [← hfunc, behindParen, behindValue]
  clear_value funcType
  by_cases hnone : funcType = .none
  · simp [hnone]
  · simp [hnone, parseCall]

theorem columnFunc_eq_none {type : LexerTokenType} :
    columnFunc type = .none ↔ type ∉ [.kwCount, .kwSum, .kwAvg, .kwMax, .kwMin] := by
  cases type <;> decide

theorem columnFunc_eq_count {type : LexerTokenType} :
    columnFunc type = .count ↔ type = .kwCount := by
  cases type <;> decide

theorem follows_selectColumn : Follows ts parseSelectColumn Grammar.SelectColumn := by
  rw [parseSelectColumn_eq]
  refine .of_currentType fun ctx t rest hctx hrest => ?_
  by_cases hnone : columnFunc t.type = .none
  · -- a column of its own
    have hplain : Follows ts _ _ := (follows_consumeText .identifier (by decide)).map
      (g := fun value => ({ value := value, funcType := .none } : Sql.SelectColumn))
    have hnot := columnFunc_eq_none.mp hnone
    simp only [List.mem_cons, List.not_mem_nil, or_false, not_or] at hnot
    rw [if_neg (not_not_intro hnone)]
    refine (hplain ctx hctx).of_eq (bind_of_ok (currentType_of_rest hrest)) fun behind => ?_
    simp [hrest, Grammar.SelectColumn, hnot]
  · have hnot := mt columnFunc_eq_none.mpr hnone
    simp only [List.mem_cons, List.not_mem_nil, or_false, not_not] at hnot
    have hne : t.type ≠ .eof := by
      rintro heof
      rw [heof] at hnone
      exact hnone rfl
    have hnext := hctx.next hrest hne
    rw [if_pos hnone]
    by_cases hcount : columnFunc t.type = .count
    · refine (hcount ▸ follows_countCall ctx.next hnext).of_eq
        (bind_of_ok (advance_of_rest hrest)) fun behind => ?_
      simp [hrest, rest_next hrest, Grammar.SelectColumn, columnFunc_eq_count.mp hcount]
    · refine (follows_call hcount ctx.next hnext).of_eq
        (bind_of_ok (advance_of_rest hrest)) fun behind => ?_
      have hcount := mt columnFunc_eq_count.mpr hcount
      simp [hrest, rest_next hrest, Grammar.SelectColumn, hcount, hnot.resolve_left hcount]

theorem follows_selectColumns : Follows ts parseSelectColumns SelectColumns :=
  follows_peek (by decide) (fun _ => follows_pure _) (follows_commaList follows_selectColumn)

theorem follows_orderColumn : Follows ts parseOrderColumn OrderColumn := by
  refine (follows_consumeText .identifier (by decide)).bind fun column => Follows.single ?_
  have hasc : Follows ts (do
      skip .kwAsc
      return (column, false)) (Maybe [.kwAsc]) :=
    (follows_skip .kwAsc (by decide)).map
  refine Follows.congr (follows_tryMatch (by decide) (follows_pure _) hasc) fun _ _ =>
    either_ofType.symm

theorem follows_filter {expression : Parser Expr} (he : Follows ts expression E) :
    Follows ts (parseFilter expression) (Optional (OfType [.kwJahan]) E) :=
  follows_tryMatch (by decide) he.map (follows_pure _)

theorem follows_groupBy : Follows ts parseGroupBy
    (Optional (OfType [.kwGroup]) (seq [Tok .kwBy, Tok .identifier])) := by
  have hcolumn : Follows ts (do
      let _ ← consume .kwBy
      return some (← consumeText .identifier)) (seq [Tok .kwBy, Tok .identifier]) :=
    (follows_consume .kwBy (by decide)).bind fun _ =>
      (follows_consumeText .identifier (by decide)).map.single
  exact follows_tryMatch (by decide) hcolumn (follows_pure _)

theorem follows_orderBy : Follows ts parseOrderBy
    (Optional (OfType [.kwOrder]) (seq [Tok .kwBy, Separated (OfType [.comma]) OrderColumn])) := by
  have hcolumns : Follows ts (do
      let _ ← consume .kwBy
      commaList parseOrderColumn) (seq [Tok .kwBy, Separated (OfType [.comma]) OrderColumn]) :=
    (follows_consume .kwBy (by decide)).bind fun _ =>
      (follows_commaList follows_orderColumn).single
  exact follows_tryMatch (by decide) hcolumns (follows_pure _)

theorem follows_limit : Follows ts parseLimit
    (Optional (OfType [.kwLimit])
      (seq [Tok .intLiteral, Optional (OfType [.kwOffset]) (Tok .intLiteral)])) := by
  have hoffset : Follows ts parseOffset (Optional (OfType [.kwOffset]) (Tok .intLiteral)) :=
    follows_tryMatch (by decide) (follows_consumeText .intLiteral (by decide)).map (follows_pure _)
  have hlimits : Follows ts (do
      let limit ← consumeText .intLiteral
      let offset ← parseOffset
      return (CStr.atoi limit, offset))
      (seq [Tok .intLiteral, Optional (OfType [.kwOffset]) (Tok .intLiteral)]) :=
    (follows_consumeText .intLiteral (by decide)).bind fun _ => hoffset.map.single
  exact follows_tryMatch (by decide) hlimits (follows_pure _)

theorem follows_selectBody {expression : Parser Expr} (he : Follows ts expression E) :
    Follows ts (parseSelectBody expression) (SelectBody E) := by
  have hbody : Follows ts (parseSelectBody expression)
      (seq (selectHead ++ Optional (OfType [.kwJahan]) E :: selectTail)) := by
    rw [parseSelectBody_eq]
    refine (follows_consume .kwSelect (by decide)).bind fun _ => ?_
    refine (follows_skip .kwKaro (by decide)).bind fun _ => ?_
    refine follows_selectColumns.bind fun columns => ?_
    refine (follows_consume .kwFrom (by decide)).bind fun _ => ?_
    refine (follows_consumeText .identifier (by decide)).bind fun tableName => ?_
    refine (follows_filter he).bind fun whereClause => ?_
    refine follows_groupBy.bind fun groupBy => ?_
    refine follows_orderBy.bind fun orderColumns => ?_
    exact follows_limit.bind fun limits => follows_pure _
  refine hbody.congr fun before behind => ?_
  rw [seq_append]
  constructor
  · rintro ⟨hhead, hcondition, htail⟩
    exact ⟨_, hhead, _, hcondition, htail⟩
  · rintro ⟨_, hhead, _, hcondition, htail⟩
    exact ⟨hhead, hcondition, htail⟩

instance endsSelectColumns : Ends true ts room parseSelectColumns := by
  unfold parseSelectColumns
  infer_instance

instance endsGroupBy : Ends true ts room parseGroupBy := by
  unfold parseGroupBy
  infer_instance

instance endsOrderBy : Ends true ts room parseOrderBy := by
  unfold parseOrderBy
  infer_instance

instance endsLimit : Ends true ts room parseLimit := by
  unfold parseLimit parseOffset
  infer_instance

/-- A condition that breaks off behind its keyword. -/
theorem crashes_filter {type : LexerTokenType} {q : Parser (Option Expr)} {expression : Parser Expr}
    (htype : type ≠ .eof) (he : Follows ts expression E) (hcrash : Crashes ts expression B)
    (hq : Crashes ts q B') : Crashes ts (do
      if ← tryMatch type then return some (← expression) else q) fun before =>
        Behind [Tok type] B before ∨ (¬ Starts (OfType [type]) before ∧ B' before) :=
  crashes_tryMatch htype (hcrash.before he.lands fun _ _ => inferInstance) hq

theorem crashes_selectBody {expression : Parser Expr} (he : Follows ts expression E)
    (hcrash : Crashes ts expression B) :
    Crashes ts (parseSelectBody expression) (SelectBreaks B) := by
  rw [parseSelectBody_eq]
  refine .behind (follows_consume .kwSelect (by decide)) (fun _ => inferInstance) fun _ => ?_
  refine .behind (follows_skip .kwKaro (by decide)) (fun _ => inferInstance) fun _ => ?_
  refine .behind follows_selectColumns (fun _ => inferInstance) fun columns => ?_
  refine .behind (follows_consume .kwFrom (by decide)) (fun _ => inferInstance) fun _ => ?_
  refine .behind (follows_consumeText .identifier (by decide)) (fun _ => inferInstance)
    fun tableName => ?_
  refine Crashes.before ?_ (follows_filter he).lands fun whereClause _ => inferInstance
  have hnone : Crashes ts (pure none : Parser (Option Expr)) fun _ => False :=
    Safe.crashes fun _ => inferInstance
  refine (crashes_filter (by decide) he hcrash hnone).congr fun before => ?_
  rw [and_false, or_false]
  exact Iff.rfl

end Select

/-! ## Comparisons -/

section Comparison

variable {room : Nat} {E : Phrase Token} {B : Breaks Token} {expression : Parser Expr}
  {ctx : ParserContext} {t : Token} {rest : List Token}

theorem parseOperator_eq : parseOperator = (do
    let type ← currentType
    if type ∈ operators then consumeText type else exit) := by
  simp [parseOperator, operators]

theorem follows_operator : Follows ts parseOperator (One (OfType operators)) := by
  rw [parseOperator_eq]
  refine .of_currentType fun ctx t rest hctx hrest => ?_
  by_cases ht : t.type ∈ operators
  · have htext : ∀ type ∈ operators, type ∈ textTypes := by decide
    rw [if_pos ht]
    refine (follows_consumeText t.type (htext _ ht) ctx hctx).of_eq rfl fun behind => ?_
    simp [hrest, ht]
  · rw [if_neg ht]
    refine .of_not_ok (fun _ _ hok => nomatch hok) fun behind => ?_
    simp [hrest, ht]

theorem crashes_operator :
    Crashes ts parseOperator fun before => ¬ Starts (OfType operators) before := by
  rw [parseOperator_eq]
  refine .of_currentType fun ctx t rest hctx hrest => ?_
  by_cases ht : t.type ∈ operators
  · have htext : ∀ type ∈ operators, type ∈ textTypes := by decide
    have hsafe : Safe ts (consumeText t.type) := fun _ => endsConsumeText_of_mem (htext _ ht)
    rw [if_pos ht]
    refine (hsafe.crashes ctx hctx).of_eq rfl ?_
    simp [hrest, ht]
  · rw [if_neg ht]
    refine .inr (iff_of_true trivial ?_)
    simp [hrest, ht]

/-- A query in parentheses, behind the first one. -/
def parseSubquery (expression : Parser Expr) : Parser Expr := do
  let stmt ← parseSelectBody expression
  let _ ← consume .rparen
  return .subquery stmt.clauses stmt.whereClause

/-- Behind a parenthesis only a query can stand. -/
theorem parseOperand_of_lparen (hctx : Standing ts ctx) (hrest : ctx.rest = t :: rest)
    (ht : t.type = .lparen) :
    parseOperand expression ctx =
      if rest.head?.map Token.type = some .kwSelect then parseSubquery expression ctx.next
      else .exit := by
  have hnext := hctx.next hrest (by simp [ht])
  obtain ⟨t', rest', hrest'⟩ := hnext.exists_rest
  have hget : ctx.tokens[ctx.current + 1]? = some t' := by
    rw [← List.head?_drop]
    exact congrArg List.head? hrest'
  have hconsume := consume_eq .lparen hrest
  rw [if_pos ht] at hconsume
  rw [rest_next hrest] at hrest'
  unfold parseOperand
  rw [bind_of_ok (currentType_of_rest hrest), if_pos ht, hrest']
  refine (@bind_of_ok _ _ _ _ t'.type ctx ctx (by rw [hget])).trans ?_
  simp only [List.head?_cons, Option.map_some, Option.some.injEq]
  split
  · rw [bind_of_ok hconsume]
    rfl
  · rfl

/-- Any other operand is a literal. -/
theorem parseOperand_of_ne (hrest : ctx.rest = t :: rest) (ht : t.type ≠ .lparen) :
    parseOperand expression ctx =
      if t.type ∈ literals then (do return .literal (← consumeText t.type) : Parser Expr) ctx
      else .exit := by
  unfold parseOperand
  rw [bind_of_ok (currentType_of_rest hrest), if_neg ht]
  by_cases hliteral : t.type ∈ literals
  · rw [if_pos hliteral, if_pos (by simpa [literals] using hliteral)]
  · rw [if_neg hliteral, if_neg (by simpa [literals] using hliteral)]
    rfl

theorem starts_of_selectBody {before behind : List Token} (hread : SelectBody E before behind) :
    Starts (OfType [.kwSelect]) before := by
  cases hread with
  | read hhead _ _ =>
      obtain ⟨_, hselect, _⟩ := hhead
      cases hselect with
      | read htoken => exact starts_cons.mpr htoken

theorem follows_subquery (he : Follows ts expression E) :
    Follows ts (parseSubquery expression) (seq [SelectBody E, Tok .rparen]) :=
  (follows_selectBody he).bind fun _ =>
    (follows_consume .rparen (by decide)).bind fun _ => follows_pure _

theorem follows_operand (he : Follows ts expression E) :
    Follows ts (parseOperand expression)
      (Either (OfType [.lparen]) (seq [SelectBody E, Tok .rparen]) (One (OfType literals))) := by
  intro ctx hctx
  obtain ⟨t, rest, hrest⟩ := hctx.exists_rest
  by_cases ht : t.type = .lparen
  · have heq := @parseOperand_of_lparen ts expression ctx t rest hctx hrest ht
    have hnext := hctx.next hrest (by simp [ht])
    by_cases hselect : rest.head?.map Token.type = some .kwSelect
    · rw [if_pos hselect] at heq
      refine (follows_subquery he ctx.next hnext).of_eq heq fun behind => ?_
      simp [hrest, rest_next hrest, ht]
    · rw [if_neg hselect] at heq
      refine .of_not_ok (fun _ _ => by rw [heq]; exact nofun) fun behind hread => ?_
      rw [hrest, either_cons] at hread
      rcases hread with ⟨_, _, hbody, _⟩ | ⟨hnot, _⟩
      · obtain ⟨t', ht', htype⟩ := starts_of_selectBody hbody
        simp_all
      · simp [ht] at hnot
  · have heq := @parseOperand_of_ne expression ctx t rest hrest ht
    by_cases hliteral : t.type ∈ literals
    · have htext : ∀ type ∈ literals, type ∈ textTypes := by decide
      rw [if_pos hliteral] at heq
      refine ((follows_consumeText t.type (htext _ hliteral)).map ctx hctx).of_eq heq
        fun behind => ?_
      simp [hrest, ht, hliteral]
    · rw [if_neg hliteral] at heq
      refine .of_not_ok (fun _ _ => by rw [heq]; exact nofun) fun behind => ?_
      simp [hrest, ht, hliteral]

theorem crashes_operand (he : Follows ts expression E) (hcrash : Crashes ts expression B) :
    Crashes ts (parseOperand expression) fun before =>
      ¬ Starts (OfType (.lparen :: literals)) before ∨
        Behind [Tok .lparen]
          (fun mid => ¬ Starts (OfType [.kwSelect]) mid ∨ SelectBreaks B mid) before := by
  intro ctx hctx
  obtain ⟨t, rest, hrest⟩ := hctx.exists_rest
  by_cases ht : t.type = .lparen
  · have heq := @parseOperand_of_lparen ts expression ctx t rest hctx hrest ht
    have hnext := hctx.next hrest (by simp [ht])
    by_cases hselect : rest.head?.map Token.type = some .kwSelect
    · have hsubquery : Crashes ts (parseSubquery expression) (SelectBreaks B) :=
        (crashes_selectBody he hcrash).before (follows_selectBody he).lands fun _ _ =>
          inferInstance
      have hstarts : Starts (OfType [.kwSelect]) rest := by
        obtain ⟨t', ht', htype⟩ := Option.map_eq_some_iff.mp hselect
        exact ⟨t', ht', by simp [htype]⟩
      rw [if_pos hselect] at heq
      refine (hsubquery ctx.next hnext).of_eq heq ?_
      simp [hrest, rest_next hrest, ht, behind_cons, hstarts]
    · have hnot : ¬ Starts (OfType [.kwSelect]) rest := by
        rintro ⟨t', ht', htype⟩
        rw [ofType_iff, List.mem_singleton] at htype
        exact hselect (Option.map_eq_some_iff.mpr ⟨t', ht', htype⟩)
      rw [if_neg hselect] at heq
      refine .inr (iff_of_true (by rw [heq]; trivial) ?_)
      simp [hrest, ht, behind_cons, hnot]
  · have heq := @parseOperand_of_ne expression ctx t rest hrest ht
    by_cases hliteral : t.type ∈ literals
    · have htext : ∀ type ∈ literals, type ∈ textTypes := by decide
      have hsafe : Safe ts (do return Expr.literal (← consumeText t.type)) := fun room =>
        have hends : Ends true ts room (consumeText t.type) :=
          endsConsumeText_of_mem (htext _ hliteral)
        inferInstance
      rw [if_pos hliteral] at heq
      refine (hsafe.crashes ctx hctx).of_eq heq ?_
      simp [hrest, ht, hliteral, behind_cons]
    · rw [if_neg hliteral] at heq
      refine .inr (iff_of_true (by rw [heq]; trivial) ?_)
      simp [hrest, ht, hliteral]

/-- A comparison, in the order in which it is parsed. -/
theorem comparison_iff {before behind : List Token} :
    Comparison before behind ↔
      Either (OfType [.lparen]) (seq [Condition, Tok .rparen])
        (seq [Tok .identifier, One (OfType operators),
          Either (OfType [.lparen]) (seq [SelectBody Condition, Tok .rparen])
            (One (OfType literals))]) before behind := by
  constructor
  · intro hread
    cases hread with
    | parens hopen hcondition hclose =>
        cases hopen with
        | read htoken => exact .read htoken ⟨_, hcondition, _, hclose, rfl⟩
    | literal hread =>
        obtain ⟨_, hcolumn, _, hoperator, _, hliteral, rfl⟩ := hread
        exact .other (not_starts_of_one hcolumn (by decide))
          ⟨_, hcolumn, _, hoperator, _, .other (not_starts_of_one hliteral (by decide)) hliteral,
            rfl⟩
    | subquery hread hquery hclose =>
        obtain ⟨_, hcolumn, _, hoperator, _, hopen, rfl⟩ := hread
        cases hopen with
        | read htoken =>
            exact .other (not_starts_of_one hcolumn (by decide))
              ⟨_, hcolumn, _, hoperator, _, .read htoken ⟨_, hquery, _, hclose, rfl⟩, rfl⟩
  · intro hread
    cases hread with
    | read htoken hrest =>
        obtain ⟨_, hcondition, _, hclose, rfl⟩ := hrest
        exact .parens (.read htoken) hcondition hclose
    | other _ hrest =>
        obtain ⟨_, hcolumn, _, hoperator, _, hoperand, rfl⟩ := hrest
        cases hoperand with
        | read htoken hquery =>
            obtain ⟨_, hquery, _, hclose, rfl⟩ := hquery
            exact .subquery ⟨_, hcolumn, _, hoperator, _, .read htoken, rfl⟩ hquery hclose
        | other _ hliteral => exact .literal ⟨_, hcolumn, _, hoperator, _, hliteral, rfl⟩

/-- And where it breaks off. -/
theorem comparisonBreaks_iff {before : List Token} :
    ComparisonBreaks before ↔
      Behind [Tok .lparen] ConditionBreaks before ∨
        (¬ Starts (OfType [.lparen]) before ∧
          Behind [Tok .identifier] (fun mid => ¬ Starts (OfType operators) mid ∨
            Behind [One (OfType operators)] (fun mid =>
              ¬ Starts (OfType (.lparen :: literals)) mid ∨
                Behind [Tok .lparen] (fun mid =>
                  ¬ Starts (OfType [.kwSelect]) mid ∨ SelectBreaks ConditionBreaks mid) mid)
              mid) before) := by
  have hcolumn : ∀ {Rs : List (Phrase Token)} {B : Breaks Token},
      Behind (Tok .identifier :: Rs) B before → ¬ Starts (OfType [.lparen]) before := by
    intro Rs B hbreaks
    obtain ⟨_, hread, _⟩ := behind_cons.mp hbreaks
    exact not_starts_of_one hread (by decide)
  simp only [behind_or, ← behind_append, List.singleton_append]
  constructor
  · intro hbreaks
    cases hbreaks with
    | parens hbreaks => exact .inl hbreaks
    | operator hbreaks => exact .inr ⟨hcolumn hbreaks, .inl hbreaks⟩
    | operand hbreaks => exact .inr ⟨hcolumn hbreaks, .inr (.inl hbreaks)⟩
    | query hbreaks => exact .inr ⟨hcolumn hbreaks, .inr (.inr (.inl hbreaks))⟩
    | subquery hbreaks => exact .inr ⟨hcolumn hbreaks, .inr (.inr (.inr hbreaks))⟩
  · rintro (hbreaks | ⟨_, hbreaks | hbreaks | hbreaks | hbreaks⟩)
    · exact .parens hbreaks
    · exact .operator hbreaks
    · exact .operand hbreaks
    · exact .query hbreaks
    · exact .subquery hbreaks

theorem follows_comparison (fuel : Nat) : Follows ts (parseComparison fuel) Comparison := by
  induction fuel with
  | zero => exact follows_running
  | succ fuel ih =>
      have hcondition : Follows ts (parseLogicalOr (parseComparison fuel)) Condition :=
        follows_logical (by decide) _ (follows_logical (by decide) _ ih)
      refine Follows.congr (follows_tryMatch (by decide) ?_ ?_) fun _ _ => comparison_iff
      · exact hcondition.bind fun node => (follows_consume .rparen (by decide)).map.single
      · exact (follows_consumeText .identifier (by decide)).bind fun column =>
          follows_operator.bind fun op => (follows_operand hcondition).map.single

theorem follows_condition (fuel : Nat) :
    Follows ts (parseLogicalOr (parseComparison fuel)) Condition :=
  follows_logical (by decide) _ (follows_logical (by decide) _ (follows_comparison fuel))

theorem crashes_comparison (fuel : Nat) :
    Crashes ts (parseComparison fuel) ComparisonBreaks := by
  induction fuel with
  | zero => exact crashes_running
  | succ fuel ih =>
      have hfollows := @follows_condition ts fuel
      have hcondition : Crashes ts (parseLogicalOr (parseComparison fuel)) ConditionBreaks :=
        crashes_logical (by decide) _ (follows_logical (by decide) _ (follows_comparison fuel))
          (crashes_logical (by decide) _ (follows_comparison fuel) ih)
      refine Crashes.congr (crashes_tryMatch (by decide) ?_ ?_) fun _ => comparisonBreaks_iff
      · exact hcondition.before hfollows.lands fun _ _ => inferInstance
      · refine .behind (follows_consumeText .identifier (by decide)) (fun _ => inferInstance)
          fun column => Crashes.here ?_
        refine crashes_operator.bind follows_operator fun op => ?_
        exact (crashes_operand hfollows hcondition).before (follows_operand hfollows).lands
          fun _ _ => inferInstance

theorem crashes_condition (fuel : Nat) :
    Crashes ts (parseLogicalOr (parseComparison fuel)) ConditionBreaks :=
  crashes_logical (by decide) _ (follows_logical (by decide) _ (follows_comparison fuel))
    (crashes_logical (by decide) _ (follows_comparison fuel) (crashes_comparison fuel))

theorem follows_expression : Follows ts parseExpression Condition :=
  fun ctx hctx => (follows_condition ctx.rounds ctx hctx).of_eq rfl fun _ => Iff.rfl

theorem crashes_expression : Crashes ts parseExpression ConditionBreaks :=
  fun ctx hctx => (crashes_condition ctx.rounds ctx hctx).of_eq rfl Iff.rfl

end Comparison

end Sql
end InventixDB
