import InventixDB.Sql.Crashes

/-!
# StatementEnds — where the parser leaves off

Most statements end at a semicolon, and the parser stops behind it: nothing else it goes past is
one, but in the braces of a document.
-/

namespace InventixDB
namespace Sql

open Storage
open Lib
open Lib.Phrase
open InventixDB.Sql.Parser
open Grammar

variable {α β : Type} {ts : TokenStream}

/-! ## From tokens to tokens -/

/-- Where the parser goes on from tokens with `P`, it is at tokens with `Q`. -/
def Goes (ts : TokenStream) (P : List Token → Prop) (p : Parser α) (Q : α → List Token → Prop) :
    Prop :=
  ∀ ctx a after, Standing ts ctx → P ctx.rest → p ctx = .ok a after →
    Standing ts after ∧ Q a after.rest

section Rules

variable {P P' : List Token → Prop} {p q : Parser α} {f : α → Parser β} {Q : α → List Token → Prop}
  {Q' : β → List Token → Prop} {t : Token} {type : LexerTokenType}

theorem goes_pure {a : α} (hQ : ∀ rest, P rest → Q a rest) : Goes ts P (pure a) Q := by
  intro ctx b after hctx hP hok
  cases hok
  exact ⟨hctx, hQ _ hP⟩

/-- The parser goes no further. -/
theorem Goes.done (a : α) : Goes ts P (pure a) fun _ => P :=
  goes_pure fun _ hP => hP

theorem goes_of_not_ok (hnever : ∀ ctx a after, p ctx ≠ .ok a after) : Goes ts P p Q :=
  fun ctx a after _ _ hok => absurd hok (hnever ctx a after)

theorem goes_fail : Goes ts P (fail : Parser α) Q :=
  goes_of_not_ok fun _ _ _ => nofun

theorem goes_exit : Goes ts P (Parser.exit : Parser α) Q :=
  goes_of_not_ok fun _ _ _ => nofun

theorem goes_running : Goes ts P (running : Parser α) Q :=
  goes_of_not_ok fun _ _ _ => nofun

theorem Goes.bind (hp : Goes ts P p Q) (hf : ∀ a, Goes ts (Q a) (f a) Q') :
    Goes ts P (p >>= f) Q' := by
  intro ctx b after hctx hP hok
  obtain ⟨a, mid, ha, hrest⟩ := ok_of_bind hok
  obtain ⟨hmid, hQ⟩ := hp ctx a mid hctx hP ha
  exact hf a mid b after hmid hQ hrest

theorem Goes.weaken (hp : Goes ts P p Q) (hP : ∀ rest, P' rest → P rest) : Goes ts P' p Q :=
  fun ctx a after hctx hrest => hp ctx a after hctx (hP _ hrest)

theorem Goes.relax {R : α → List Token → Prop} (hp : Goes ts P p Q)
    (hQ : ∀ a rest, Q a rest → R a rest) : Goes ts P p R :=
  fun ctx a after hctx hrest hok => (hp ctx a after hctx hrest hok).imp_right (hQ _ _)

theorem Goes.forget (hp : Goes ts P p Q) :
    Goes ts (fun rest => P rest ∧ rest.head? = some t) p Q :=
  hp.weaken fun _ h => h.1

theorem Goes.ite {c : Prop} [Decidable c] (hp : Goes ts P p Q) (hq : Goes ts P q Q) :
    Goes ts P (if c then p else q) Q := by
  split
  · exact hp
  · exact hq

theorem Goes.current {f : Token → Parser β}
    (hf : ∀ t, Goes ts (fun rest => P rest ∧ rest.head? = some t) (f t) Q') :
    Goes ts P (currentToken >>= f) Q' := by
  intro ctx b after hctx hP hok
  obtain ⟨t, rest, hrest⟩ := hctx.exists_rest
  rw [bind_of_ok (currentToken_of_rest hrest)] at hok
  exact hf t ctx b after hctx ⟨hP, by rw [hrest]; rfl⟩ hok

theorem Goes.currentType {f : LexerTokenType → Parser β}
    (hf : ∀ t, Goes ts (fun rest => P rest ∧ rest.head? = some t) (f t.type) Q') :
    Goes ts P (currentType >>= f) Q' := by
  rw [currentType_bind]
  exact .current hf

/-- The parser goes past the token it has looked at. -/
theorem goes_advance (htype : t.type ≠ .eof) :
    Goes ts (fun rest => P rest ∧ rest.head? = some t) advance fun _ rest => P (t :: rest) := by
  rintro ctx u after hctx ⟨hP, hhead⟩ hok
  obtain ⟨t', rest, hrest⟩ := hctx.exists_rest
  rw [advance_of_rest hrest] at hok
  cases hok
  rw [hrest] at hP hhead
  cases hhead
  rw [rest_next hrest]
  exact ⟨hctx.next hrest htype, hP⟩

theorem goes_consume (htype : type ≠ .eof) :
    Goes ts P (consume type) fun t rest => t.type = type ∧ P (t :: rest) := by
  refine .current fun t => ?_
  by_cases ht : t.type = type
  · rw [if_pos ht]
    exact (goes_advance (ht ▸ htype)).bind fun _ => goes_pure fun rest hP => ⟨ht, hP⟩
  · rw [if_neg ht]
    exact goes_fail

theorem goes_tryMatch (htype : type ≠ .eof) :
    Goes ts P (tryMatch type) fun found rest =>
      if found then ∃ t : Token, t.type = type ∧ P (t :: rest) else P rest := by
  refine .currentType fun t => ?_
  by_cases ht : t.type = type
  · rw [if_pos ht]
    exact (goes_advance (ht ▸ htype)).bind fun _ => goes_pure fun rest hP => ⟨t, ht, hP⟩
  · rw [if_neg ht]
    exact goes_pure fun rest hP => hP.1

theorem goes_text : Goes ts P (text t) fun _ => P := by
  unfold text
  cases t.value with
  | some v => exact .done v
  | none => exact goes_of_not_ok fun _ _ _ => nofun

theorem goes_strcat (size : Nat) (buffer s : CStr) :
    Goes ts P (strcat size buffer s) fun _ => P :=
  .ite (.done _) (goes_of_not_ok fun _ _ _ => nofun)

/-- What holds before each round of a loop, `I`, and behind its last one, `Q`. -/
theorem goes_loop {I : α → List Token → Prop} {body : α → Parser (α × Bool)}
    (hbody : ∀ s, Goes ts (I s) (body s) fun r rest => if r.2 then I r.1 rest else Q r.1 rest)
    (s : α) : Goes ts (I s) (loop body s) Q := by
  have hrounds : ∀ fuel s, Goes ts (I s) (iterate body fuel s) Q := by
    intro fuel
    induction fuel with
    | zero => exact fun _ => goes_running
    | succ fuel ih =>
        intro s
        refine (hbody s).bind ?_
        rintro ⟨s', more⟩
        cases more with
        | true => exact ih s'
        | false => exact goes_pure fun _ hQ => hQ
  exact fun ctx => hrounds ctx.rounds s ctx

end Rules

/-! ## The first semicolon -/

/-- How many braces are open behind a token; in a flat body there is one at most. -/
def openBraces (flat : Bool) (depth : Nat) (type : LexerTokenType) : Nat :=
  if type = .lbrace ∧ flat then 1 else braceDepth depth type

/-- What stands behind the first semicolon that is not in braces. -/
def behindSemicolon (flat : Bool) : Nat → List Token → List Token
  | _, [] => []
  | depth, t :: rest =>
      if t.type = .eof then []
      else if t.type = .semicolon ∧ depth = 0 then rest
      else behindSemicolon flat (openBraces flat depth t.type) rest

/-- `left` is what stands behind the semicolon to come. -/
def Ahead (flat : Bool) (depth : Nat) (left rest : List Token) : Prop :=
  behindSemicolon flat depth rest = left

/-- A token that neither ends the statement nor is a brace. -/
def isPlain : LexerTokenType → Bool
  | .eof => false
  | .semicolon => false
  | .lbrace => false
  | .rbrace => false
  | _ => true

/-- The parser goes past no semicolon outside braces. -/
def Keeps (ts : TokenStream) (flat : Bool) (p : Parser α) : Prop :=
  ∀ left, Goes ts (Ahead flat 0 left) p fun _ => Ahead flat 0 left

/-- The parser ends behind the first semicolon outside braces. -/
def Closes (ts : TokenStream) (flat : Bool) (p : Parser α) : Prop :=
  ∀ left, Goes ts (Ahead flat 0 left) p fun _ rest => rest = left

section Ahead

variable {flat : Bool} {depth : Nat} {left rest : List Token} {t : Token} {type : LexerTokenType}
  {p : Parser α} {Q : β → List Token → Prop}

theorem ahead_cons (heof : t.type ≠ .eof) (hinside : ¬ (t.type = .semicolon ∧ depth = 0)) :
    Ahead flat depth left (t :: rest) ↔ Ahead flat (openBraces flat depth t.type) left rest := by
  rw [Ahead, behindSemicolon, if_neg heof, if_neg hinside, Ahead]

theorem ahead_semicolon (ht : t.type = .semicolon) :
    Ahead flat 0 left (t :: rest) ↔ rest = left := by
  rw [Ahead, behindSemicolon, if_neg (by rw [ht]; decide), if_pos ⟨ht, rfl⟩]

theorem ahead_eof (ht : t.type = .eof) (depth' : Nat) :
    Ahead flat depth left (t :: rest) ↔ Ahead flat depth' left (t :: rest) := by
  rw [Ahead, behindSemicolon, if_pos ht, Ahead, behindSemicolon, if_pos ht]

theorem ne_eof_of_isPlain (htype : isPlain type = true) : type ≠ .eof := by
  rintro rfl
  cases htype

theorem ahead_plain (ht : isPlain t.type = true) :
    Ahead flat depth left (t :: rest) ↔ Ahead flat depth left rest := by
  have hsemicolon : t.type ≠ .semicolon := fun h => by cases h ▸ ht
  have hlbrace : t.type ≠ .lbrace := fun h => by cases h ▸ ht
  have hrbrace : t.type ≠ .rbrace := fun h => by cases h ▸ ht
  rw [ahead_cons (ne_eof_of_isPlain ht) fun h => hsemicolon h.1, openBraces,
    if_neg fun h => hlbrace h.1, braceDepth, if_neg hlbrace, if_neg hrbrace]

theorem ahead_lbrace (ht : t.type = .lbrace) :
    Ahead flat 0 left (t :: rest) ↔ Ahead flat 1 left rest := by
  rw [ahead_cons (by rw [ht]; decide) fun h => (nomatch ht.symm.trans h.1), ht]
  cases flat <;> rfl

theorem ahead_rbrace (ht : t.type = .rbrace) :
    Ahead flat 1 left (t :: rest) ↔ Ahead flat 0 left rest := by
  rw [ahead_cons (by rw [ht]; decide) fun h => (nomatch ht.symm.trans h.1), ht]
  cases flat <;> rfl

/-! ### Chains of calls -/

theorem Goes.keep {f : α → Parser β} (hp : Keeps ts flat p)
    (hf : ∀ a, Goes ts (Ahead flat 0 left) (f a) Q) : Goes ts (Ahead flat 0 left) (p >>= f) Q :=
  (hp left).bind hf

theorem keeps_consume (htype : isPlain type = true) : Keeps ts flat (consume type) :=
  fun _ => (goes_consume (ne_eof_of_isPlain htype)).relax fun _ _ h =>
    (ahead_plain (h.1 ▸ htype)).mp h.2

theorem keeps_tryMatch (htype : isPlain type = true) : Keeps ts flat (tryMatch type) := by
  intro left
  refine (goes_tryMatch (ne_eof_of_isPlain htype)).relax fun found rest h => ?_
  cases found with
  | true =>
      obtain ⟨t, ht, hahead⟩ := h
      exact (ahead_plain (ht ▸ htype)).mp hahead
  | false => exact h

theorem Goes.tok {f : Token → Parser β} (htype : isPlain type = true)
    (hf : ∀ t, Goes ts (Ahead flat 0 left) (f t) Q) :
    Goes ts (Ahead flat 0 left) (consume type >>= f) Q :=
  .keep (keeps_consume htype) hf

theorem keeps_consumeText (htype : isPlain type = true) : Keeps ts flat (consumeText type) :=
  fun _ => .tok htype fun _ => goes_text

theorem Goes.word {f : CStr → Parser β} (htype : isPlain type = true)
    (hf : ∀ v, Goes ts (Ahead flat 0 left) (f v) Q) :
    Goes ts (Ahead flat 0 left) (consumeText type >>= f) Q :=
  .keep (keeps_consumeText htype) hf

theorem Goes.found {f : Bool → Parser β} (htype : isPlain type = true)
    (hf : ∀ found, Goes ts (Ahead flat 0 left) (f found) Q) :
    Goes ts (Ahead flat 0 left) (tryMatch type >>= f) Q :=
  .keep (keeps_tryMatch htype) hf

theorem Goes.skip {f : Unit → Parser β} (htype : isPlain type = true)
    (hf : Goes ts (Ahead flat 0 left) (f ()) Q) :
    Goes ts (Ahead flat 0 left) (Parser.skip type >>= f) Q :=
  .keep (fun _ => .found htype fun _ => .done _) fun _ => hf

/-- A parser that asks for a type and does not go by it. -/
theorem Goes.peek {f : LexerTokenType → Parser β}
    (hf : ∀ type, Goes ts (Ahead flat 0 left) (f type) Q) :
    Goes ts (Ahead flat 0 left) (Parser.currentType >>= f) Q :=
  .currentType fun t => .forget (hf t.type)

theorem Goes.advance {f : Unit → Parser β} (ht : t.type = type) (htype : isPlain type = true)
    (hf : ∀ u, Goes ts (Ahead flat 0 left) (f u) Q) :
    Goes ts (fun rest => Ahead flat 0 left rest ∧ rest.head? = some t) (Parser.advance >>= f) Q :=
  have hplain : isPlain t.type = true := ht ▸ htype
  (goes_advance (ne_eof_of_isPlain hplain)).bind fun u =>
    (hf u).weaken fun _ => (ahead_plain hplain).mp

/-- The semicolon a statement ends with. -/
theorem Goes.last (b : β) :
    Goes ts (Ahead flat 0 left) (consume .semicolon >>= fun _ => pure b) fun _ rest =>
      rest = left :=
  (goes_consume (by decide)).bind fun _ => goes_pure fun _ h => (ahead_semicolon h.1).mp h.2

theorem keeps_loop {body : α → Parser (α × Bool)} (hbody : ∀ s, Keeps ts flat (body s)) (s : α) :
    Keeps ts flat (loop body s) :=
  fun left => goes_loop (I := fun _ => Ahead flat 0 left)
    (fun s => (hbody s left).relax fun r _ h => by split <;> exact h) s

theorem keeps_commaList {item : Parser α} (hitem : Keeps ts flat item) :
    Keeps ts flat (commaList item) :=
  keeps_loop (fun _ _ => .keep hitem fun _ => .found rfl fun _ => .done _) []

end Ahead

/-! ## Conditions -/

section Conditions

variable {flat : Bool} {expression : Parser Expr}

theorem keeps_logical {type : LexerTokenType} {op : CStr} {operand : Parser Expr}
    (htype : isPlain type = true) (hoperand : Keeps ts flat operand) :
    Keeps ts flat (parseLogical type op operand) := by
  refine fun left => .keep hoperand fun first => keeps_loop (fun expr left => ?_) first left
  exact .peek fun _ => .ite
    (.tok htype fun _ => .keep hoperand fun _ => .done _)
    (.done _)

theorem keeps_logicalOr {comparison : Parser Expr} (hcomparison : Keeps ts flat comparison) :
    Keeps ts flat (parseLogicalOr comparison) :=
  keeps_logical rfl (keeps_logical rfl hcomparison)

theorem keeps_call (funcType : FuncType) : Keeps ts flat (parseCall funcType) := by
  have hclose : ∀ (value : CStr) (left : List Token), Goes ts (Ahead flat 0 left) (do
      let _ ← consume .rparen
      return { value := value, funcType := funcType : SelectColumn })
      fun _ => Ahead flat 0 left :=
    fun value _ => .tok rfl fun _ => .done _
  exact fun left => .tok rfl fun _ => .peek fun _ => .ite (.tok rfl fun _ => hclose _ left)
    (.word rfl fun _ => hclose _ left)

theorem keeps_selectColumn : Keeps ts flat parseSelectColumn := by
  rw [parseSelectColumn_eq]
  refine fun left => .currentType fun t => ?_
  by_cases hfunc : columnFunc t.type = .none
  · rw [if_neg (not_not_intro hfunc)]
    exact .forget (.peek fun _ => .word rfl fun _ => .done _)
  · rw [if_pos hfunc]
    have hplain : ∀ type, columnFunc type ≠ .none → isPlain type = true := by
      intro type
      cases type <;> decide
    exact .advance rfl (hplain _ hfunc) fun _ => keeps_call _ left

theorem keeps_orderColumn : Keeps ts flat parseOrderColumn :=
  fun _ => .word rfl fun _ => .found rfl fun _ => .ite (.done _)
    (.skip rfl (.done _))

theorem keeps_filter (hexpression : Keeps ts flat expression) :
    Keeps ts flat (parseFilter expression) :=
  fun _ => .found rfl fun _ => .ite (.keep hexpression fun _ => .done _)
    (.done _)

theorem keeps_selectBody (hexpression : Keeps ts flat expression) :
    Keeps ts flat (parseSelectBody expression) := by
  have hcolumns : Keeps ts flat parseSelectColumns :=
    fun left => .peek fun _ => .ite (.tok rfl fun _ => .done _)
      (keeps_commaList keeps_selectColumn left)
  have hgroup : Keeps ts flat parseGroupBy :=
    fun _ => .found rfl fun _ => .ite (.tok rfl fun _ => .word rfl fun _ => .done _)
      (.done _)
  have horder : Keeps ts flat parseOrderBy :=
    fun left => .found rfl fun _ => .ite (.tok rfl fun _ => keeps_commaList keeps_orderColumn left)
      (.done _)
  have hoffset : Keeps ts flat parseOffset :=
    fun _ => .found rfl fun _ => .ite (.word rfl fun _ => .done _) (.done _)
  have hlimit : Keeps ts flat parseLimit :=
    fun _ => .found rfl fun _ => .ite (.word rfl fun _ => .keep hoffset fun _ => .done _)
      (.done _)
  rw [parseSelectBody_eq]
  exact fun _ => .tok rfl fun _ => .skip rfl <| .keep hcolumns fun _ => .tok rfl fun _ =>
    .word rfl fun _ => .keep (keeps_filter hexpression) fun _ => .keep hgroup fun _ =>
    .keep horder fun _ => .keep hlimit fun _ => .done _

theorem keeps_operator : Keeps ts flat parseOperator := by
  rw [parseOperator_eq]
  refine fun left => .peek fun type => ?_
  have hplain : ∀ type ∈ operators, isPlain type = true := by decide
  split
  · next htype => exact keeps_consumeText (hplain type htype) left
  · exact goes_exit

theorem keeps_operand (hexpression : Keeps ts flat expression) :
    Keeps ts flat (parseOperand expression) := by
  have hplain : ∀ type ∈ literals, isPlain type = true := by decide
  have hquery : Keeps ts flat (parseSubquery expression) := fun _ =>
    .keep (keeps_selectBody hexpression) fun _ => .tok rfl fun _ => .done _
  intro left ctx expr after hctx hahead hok
  obtain ⟨t, rest, hrest⟩ := hctx.exists_rest
  by_cases ht : t.type = .lparen
  · rw [parseOperand_of_lparen hctx hrest ht] at hok
    split at hok
    · have htype : isPlain t.type = true := by
        rw [ht]
        decide
      rw [hrest, ahead_plain htype, ← rest_next hrest] at hahead
      exact hquery left ctx.next expr after (hctx.next hrest (ne_eof_of_isPlain htype)) hahead hok
    · cases hok
  · rw [parseOperand_of_ne hrest ht] at hok
    split at hok
    · next hliteral =>
        have hread : Keeps ts flat (do return .literal (← consumeText t.type) : Parser Expr) :=
          fun _ => .word (hplain _ hliteral) fun _ => .done _
        exact hread left ctx expr after hctx hahead hok
    · cases hok

theorem keeps_comparison (fuel : Nat) : Keeps ts flat (parseComparison fuel) := by
  induction fuel with
  | zero => exact fun _ => goes_running
  | succ fuel ih =>
      have hor := keeps_logicalOr ih
      exact fun left => .found rfl fun _ => .ite
        (.keep hor fun _ => .tok rfl fun _ => .done _)
        (.word rfl fun _ => .keep keeps_operator fun _ =>
          .keep (keeps_operand hor) fun _ => .done _)

theorem keeps_expression : Keeps ts flat parseExpression :=
  fun left ctx => keeps_logicalOr (keeps_comparison ctx.rounds) left ctx

end Conditions

/-! ## Statements that end at a semicolon -/

section Statements

variable {flat : Bool}

/-! ### Tables and rows -/

theorem keeps_where : Keeps ts flat parseWhere :=
  keeps_filter keeps_expression

theorem closes_select : Closes ts flat parseSelect :=
  fun _ => .keep (keeps_selectBody keeps_expression) fun _ => .last _

theorem keeps_columnDef : Keeps ts flat parseColumnDef := by
  refine fun left => .word rfl fun name => .currentType fun t => ?_
  have hplain : ∀ type, (columnTypeText type).isSome → isPlain type = true := by
    intro type
    cases type <;> decide
  split
  · exact goes_fail
  · next htype =>
      refine .advance rfl (hplain _ (by rw [htype]; rfl)) fun _ => .found rfl fun _ =>
        .ite (.skip rfl ?_) ?_
      · exact .done _
      · exact .done _

theorem closes_createTable : Closes ts flat parseCreateTable :=
  fun _ => .skip rfl <| .skip rfl <| .word rfl fun _ => .tok rfl fun _ =>
    .keep (keeps_commaList keeps_columnDef) fun _ => .tok rfl fun _ => .last _

theorem plain_of_value {type : LexerTokenType}
    (htype : type = .string ∨ type = .intLiteral ∨ type = .floatLiteral ∨ type = .identifier) :
    isPlain type = true := by
  rcases htype with rfl | rfl | rfl | rfl <;> decide

theorem keeps_insertValue : Keeps ts flat parseInsertValue := by
  refine fun left => .currentType fun t => ?_
  split
  · next hauto => exact .advance hauto rfl fun _ => .done _
  · split
    · next hvalue => exact .forget (keeps_consumeText (plain_of_value hvalue) left)
    · exact goes_fail

theorem keeps_insertRow : Keeps ts flat parseInsertRow :=
  fun _ => .tok rfl fun _ => .keep (keeps_commaList keeps_insertValue) fun _ =>
    .tok rfl fun _ => .done _

theorem closes_insert : Closes ts flat parseInsert := by
  intro left
  have hrows : Goes ts (Ahead flat 0 left) (do
      let name ← consumeText .identifier
      let _ ← consume .kwValues
      let rows ← commaList parseInsertRow
      let _ ← consume .semicolon
      return ASTNode.insert name rows) fun _ rest => rest = left :=
    .word rfl fun _ => .tok rfl fun _ => .keep (keeps_commaList keeps_insertRow) fun _ => .last _
  exact .tok rfl fun _ => .found rfl fun _ => .ite (.skip rfl hrows) hrows

theorem closes_delete : Closes ts flat parseDelete :=
  fun _ => .tok rfl fun _ => .skip rfl <| .word rfl fun _ => .keep keeps_where fun _ => .last _

theorem keeps_assignment : Keeps ts flat parseAssignment := by
  refine fun left => .word rfl fun col => .tok rfl fun _ => .current fun t => ?_
  split
  · next hvalue =>
      exact goes_text.bind fun _ =>
        .advance rfl (plain_of_value hvalue) fun _ => .done _
  · exact goes_fail

theorem closes_update : Closes ts flat parseUpdate := by
  have hwhere : Keeps ts flat parseUpdateWhere := fun _ =>
    .found rfl fun _ => .ite (.keep keeps_expression fun _ => .done _)
      (.found rfl fun _ => .ite (.keep keeps_expression fun _ => .done _)
        (.done _))
  rw [parseUpdate_eq]
  exact fun _ => .tok rfl fun _ => .word rfl fun _ => .tok rfl fun _ =>
    .keep (keeps_commaList keeps_assignment) fun _ => .keep hwhere fun _ => .last _

theorem closes_dropTable : Closes ts flat parseDropTable := by
  intro left
  have hname : Goes ts (Ahead flat 0 left) (do
      let name ← consumeText .identifier
      let _ ← consume .semicolon
      return ASTNode.dropTable name) fun _ rest => rest = left := .word rfl fun _ => .last _
  refine .currentType fun t => ?_
  split
  · next htable =>
      exact .advance htable rfl fun _ => .found rfl fun _ => .ite (.skip rfl hname) hname
  · next hdrop => exact .advance hdrop rfl fun _ => .tok rfl fun _ => hname
  · exact .forget (.tok rfl fun _ => .tok rfl fun _ => hname)

theorem closes_createIndex : Closes ts flat parseCreateIndex :=
  fun _ => .tok rfl fun _ => .tok rfl fun _ => .word rfl fun _ => .tok rfl fun _ =>
    .word rfl fun _ => .tok rfl fun _ => .last _

/-! ### Users and databases -/

theorem closes_createUser : Closes ts flat parseCreateUser :=
  fun _ => .tok rfl fun _ => .skip rfl <| .word rfl fun _ => .tok rfl fun _ => .word rfl fun _ =>
    .last _

theorem closes_createDb : Closes ts flat parseCreateDb :=
  fun _ => .tok rfl fun _ => .skip rfl <| .word rfl fun _ => .last _

theorem closes_dropDb : Closes ts flat parseDropDb :=
  fun _ => .skip rfl <| .skip rfl <| .word rfl fun _ => .last _

theorem closes_showDbs : Closes ts flat parseShowDbs :=
  fun _ => .skip rfl <| .tok rfl fun _ => .last _

theorem closes_showTables : Closes ts flat parseShowTables :=
  fun _ => .tok rfl fun _ => .tok rfl fun _ => .last _

theorem closes_checkpoint : Closes ts flat parseCheckpoint :=
  fun _ => .tok rfl fun _ => .last _

/-! ### Changing tables -/

theorem keeps_alteredType : Keeps ts flat parseAlteredType := by
  refine fun left => .peek fun type => ?_
  have hplain : (columnTypeText type).isSome → isPlain type = true := by cases type <;> decide
  split
  · next htype => exact keeps_consumeText (hplain htype) left
  · exact goes_fail

theorem keeps_columnConstraint (alter : AlterTable) :
    Keeps ts flat (parseColumnConstraint alter) := by
  refine fun left => .currentType fun t => ?_
  split
  · next hnot =>
      exact .advance hnot rfl fun _ => .tok rfl fun _ => .done _
  · next hdefault =>
      refine .advance hdefault rfl fun _ => .current fun value => ?_
      split
      · next hvalue =>
          have hplain : isPlain value.type = true := by
            rcases hvalue with h | h | h <;> rw [h] <;> decide
          exact goes_text.bind fun _ => .advance rfl hplain fun _ => .done _
      · exact goes_pure fun _ h => h.1
  · next hunique => exact .advance hunique rfl fun _ => .done _
  · exact goes_pure fun _ h => h.1

theorem keeps_fkAction (before : FkAction) : Keeps ts flat (parseFkAction before) :=
  fun _ => .found rfl fun _ => .ite (.done _)
    (.found rfl fun _ => .ite (.done _) (.done _))

theorem keeps_referenceAction (alter : AlterTable) :
    Keeps ts flat (parseReferenceAction alter) :=
  fun _ => .found rfl fun _ => .ite
    (.found rfl fun _ => .ite (.keep (keeps_fkAction _) fun _ => .done _)
      (.found rfl fun _ => .ite (.keep (keeps_fkAction _) fun _ => .done _)
        (.done _)))
    (.done _)

theorem keeps_addColumn (table : CStr) : Keeps ts flat (parseAddColumn table) :=
  fun _ => .skip rfl <| .word rfl fun _ => .keep keeps_alteredType fun _ =>
    .keep (keeps_loop keeps_columnConstraint _) fun _ => .done _

theorem keeps_addConstraint (table : CStr) : Keeps ts flat (parseAddConstraint table) :=
  fun _ => .tok rfl fun _ => .word rfl fun _ => .tok rfl fun _ => .tok rfl fun _ =>
    .tok rfl fun _ => .word rfl fun _ => .tok rfl fun _ => .tok rfl fun _ => .word rfl fun _ =>
    .tok rfl fun _ => .word rfl fun _ => .tok rfl fun _ =>
    .keep (keeps_loop keeps_referenceAction _) fun _ => .done _

theorem keeps_alteration (table : CStr) : Keeps ts flat (parseAlteration table) := by
  refine fun left => .currentType fun t => ?_
  split
  · next hadd =>
      refine .advance hadd rfl fun _ => .peek fun type => ?_
      split
      · exact .keep (keeps_addColumn table) fun _ => .done _
      · exact .keep (keeps_addColumn table) fun _ => .done _
      · exact .keep (keeps_addConstraint table) fun _ => .done _
      · exact .done _
  · next hdrop =>
      refine .advance hdrop rfl fun _ => .found rfl fun _ => .ite ?_ ?_
      · exact .word rfl fun _ => .done _
      · exact .found rfl fun _ => .ite (.word rfl fun _ => .done _) (.done _)
  · next hrename =>
      refine .advance hrename rfl fun _ => ?_
      exact .tok rfl fun _ => .word rfl fun _ => .tok rfl fun _ => .word rfl fun _ => .done _
  · next hmodify =>
      refine .advance hmodify rfl fun _ => ?_
      exact .skip rfl <| .word rfl fun _ => .keep keeps_alteredType fun _ => .done _
  · exact goes_pure fun _ h => h.1

theorem closes_alterTable : Closes ts flat parseAlterTable := by
  have halter : Keeps ts flat (do if ← tryMatch .kwAlter then let _ ← consume .kwTable) :=
    fun _ => .found rfl fun _ => .ite (.tok rfl fun _ => .done _) (.done _)
  rw [parseAlterTable_eq]
  refine fun left => .keep halter fun _ => .word rfl fun table =>
    .keep (keeps_alteration table) fun node => ?_
  cases node with
  | none => exact (goes_consume (by decide)).bind fun _ => goes_fail
  | some node => exact .last node

/-! ### Files -/

theorem keeps_databaseName : Keeps ts flat parseDatabaseName :=
  fun _ => .found rfl fun _ => .ite
    (.peek fun _ => .ite (.word rfl fun _ => .done _) (.done _))
    (.done _)

theorem closes_backup : Closes ts flat parseBackup :=
  fun _ => .tok rfl fun _ => .keep keeps_databaseName fun _ => .tok rfl fun _ => .word rfl fun _ =>
    .found rfl fun _ => .ite (.word rfl fun _ => .last _) (.last _)

theorem closes_restore : Closes ts flat parseRestore :=
  fun _ => .tok rfl fun _ => .keep keeps_databaseName fun _ => .tok rfl fun _ =>
    .word rfl fun _ => .last _

theorem closes_export : Closes ts flat parseExport :=
  fun _ => .tok rfl fun _ => .tok rfl fun _ => .word rfl fun _ => .tok rfl fun _ =>
    .word rfl fun _ => .found rfl fun _ => .ite (.word rfl fun _ => .last _) (.last _)

theorem closes_import : Closes ts flat parseImport :=
  fun _ => .tok rfl fun _ => .tok rfl fun _ => .word rfl fun _ => .tok rfl fun _ =>
    .word rfl fun _ => .last _

/-! ### Documents -/

theorem openBraces_false (depth : Nat) (type : LexerTokenType) :
    openBraces false depth type = braceDepth depth type :=
  if_neg fun h => Bool.false_ne_true h.2

/-- The braces are those the parser counts. -/
theorem keeps_braces (size : Nat) : Keeps ts false (parseBraces size) := by
  intro left
  have hround : ∀ s : CStr × Nat, Goes ts (Ahead false s.2 left) (bracesRound size s)
      fun r rest => if r.2 then Ahead false r.1.2 left rest else Ahead false 0 left rest := by
    refine fun s => .current fun t => ?_
    by_cases hstop : s.2 = 0 ∨ t.type = .eof
    · rw [if_pos hstop]
      refine goes_pure fun rest h => ?_
      obtain ⟨hahead, hhead⟩ := h
      rcases hstop with hdepth | heof
      · exact hdepth ▸ hahead
      · obtain ⟨rest, rfl⟩ := List.head?_eq_some_iff.mp hhead
        exact (ahead_eof heof 0).mp hahead
    · have heof : t.type ≠ .eof := fun h => hstop (.inr h)
      have hinside : ¬ (t.type = .semicolon ∧ s.2 = 0) := fun h => hstop (.inl h.2)
      have hnext : ∀ rest, Ahead false s.2 left (t :: rest) →
          Ahead false (braceDepth s.2 t.type) left rest := by
        intro rest h
        rw [← openBraces_false]
        exact (ahead_cons heof hinside).mp h
      rw [if_neg hstop]
      refine .ite ?_ ?_
      · exact (goes_advance heof).bind fun _ => goes_pure hnext
      · exact goes_text.bind fun _ => (goes_strcat _ _ _).bind fun _ =>
          (goes_strcat _ _ _).bind fun _ => (goes_advance heof).bind fun _ => goes_pure hnext
  rw [parseBraces_eq]
  refine (goes_consume (by decide)).bind fun t => ?_
  refine Goes.weaken ?_ fun rest h => (ahead_lbrace h.1).mp h.2
  exact (goes_loop hround (CStr.lit "\x7b", 1)).bind fun _ => goes_strcat _ _ _

/-- An opening brace among them is a text like the others. -/
theorem keeps_flatBraces (size : Nat) : Keeps ts true (parseFlatBraces size) := by
  intro left
  have hround : ∀ buffer, Goes ts (Ahead true 1 left) (flatBracesRound size buffer)
      fun _ => Ahead true 1 left := by
    refine fun buffer => .current fun t => ?_
    by_cases hstop : t.type = .rbrace ∨ t.type = .eof
    · rw [if_pos hstop]
      exact goes_pure fun _ h => h.1
    · have heof : t.type ≠ .eof := fun h => hstop (.inr h)
      have hdepth : openBraces true 1 t.type = 1 := by
        unfold openBraces braceDepth
        split_ifs with hopen hopen' hclose
        · rfl
        · exact absurd ⟨hopen', rfl⟩ hopen
        · exact absurd (.inl hclose) hstop
        · rfl
      rw [if_neg hstop]
      refine goes_text.bind fun _ => (goes_strcat _ _ _).bind fun _ =>
        (goes_strcat _ _ _).bind fun _ => (goes_advance heof).bind fun _ =>
          goes_pure fun rest h => ?_
      rw [ahead_cons heof fun hend => Nat.one_ne_zero hend.2, hdepth] at h
      exact h
  rw [parseFlatBraces_eq]
  refine (goes_consume (by decide)).bind fun t => ?_
  refine Goes.weaken ?_ fun rest h => (ahead_lbrace h.1).mp h.2
  have hloop : Goes ts (Ahead true 1 left) (loop (flatBracesRound size) (CStr.lit "\x7b"))
      fun _ => Ahead true 1 left :=
    goes_loop (I := fun _ => Ahead true 1 left)
      (fun buffer => (hround buffer).relax fun _ _ h => by split <;> exact h) _
  refine hloop.bind fun _ => (goes_consume (by decide)).bind fun t => ?_
  exact (goes_strcat _ _ _).weaken fun rest h => (ahead_rbrace h.1).mp h.2

theorem keeps_body {braces : Parser CStr} (hbraces : Keeps ts flat braces) :
    Keeps ts flat (parseBody braces) :=
  fun left => .peek fun _ => .ite (hbraces left) (keeps_consumeText rfl left)

theorem closes_docInsert : Closes ts true parseDocInsert := by
  rw [parseDocInsert_eq]
  exact fun _ => .tok rfl fun _ => .word rfl fun _ =>
    .keep (keeps_body (keeps_flatBraces 1024)) fun _ => .last _

theorem closes_upsert : Closes ts false parseUpsert := by
  rw [parseUpsert_eq]
  exact fun _ => .tok rfl fun _ => .word rfl fun _ =>
    .keep (keeps_body (keeps_braces 2048)) fun _ => .last _

theorem closes_find : Closes ts false parseFind := by
  have hfilter : Keeps ts false parseFindFilter := fun _ =>
    .peek fun _ => .ite (.keep (keeps_braces 1024) fun _ => .done _)
      (.done _)
  rw [parseFind_eq]
  exact fun _ => .tok rfl fun _ => .word rfl fun _ => .keep hfilter fun _ => .last _

theorem closes_aggregate : Closes ts false parseAggregate := by
  have hround : ∀ stages, Keeps ts false (stagesRound stages) := fun stages _ =>
    .peek fun _ => .ite (.done _)
      (.ite (.keep (keeps_braces 1024) fun _ => .skip rfl (.done _))
        (.skip rfl (.done _)))
  have hstages : Keeps ts false parseStages := by
    rw [parseStages_eq]
    exact fun _ => .tok rfl fun _ => .keep (keeps_loop hround []) fun _ => .tok rfl fun _ =>
      .done _
  have hlist : Keeps ts false parseStageList := fun left =>
    .peek fun _ => .ite (hstages left) (.done _)
  rw [parseAggregate_eq]
  exact fun _ => .tok rfl fun _ => .word rfl fun _ => .keep hlist fun _ => .last _

theorem keeps_docId : Keeps ts flat parseDocId := by
  refine fun left => .peek fun type => ?_
  split
  · next htype =>
      have hplain : isPlain type = true := by rcases htype with rfl | rfl <;> decide
      exact .word hplain fun _ => .done _
  · exact .done _

theorem closes_docGet : Closes ts flat parseDocGet :=
  fun _ => .tok rfl fun _ => .word rfl fun _ => .keep keeps_docId fun _ => .last _

theorem closes_dhundo : Closes ts flat parseDhundo := by
  refine fun left => .tok rfl fun _ => .word rfl fun collection => .found rfl fun _ => .ite ?_ ?_
  · refine .tok rfl fun _ => .tok rfl fun _ => .keep keeps_docId fun docId => ?_
    cases docId with
    | some docId => exact .last _
    | none => exact .word rfl fun _ => .last _
  · exact .keep keeps_docId fun _ => .last _

theorem closes_docRemove : Closes ts flat parseDocRemove := by
  refine fun left => .tok rfl fun _ => .word rfl fun collection => .keep keeps_docId fun docId => ?_
  cases docId with
  | none => exact goes_fail
  | some docId => exact .last _

theorem closes_createCollection : Closes ts flat parseCreateCollection :=
  fun _ => .tok rfl fun _ => .word rfl fun _ => .last _

end Statements

end Sql
end InventixDB
