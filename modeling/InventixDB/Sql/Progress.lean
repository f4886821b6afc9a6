import InventixDB.Sql.Parser

/-!
# Progress — which parsers end

A loop whose rounds each consume a token makes no more rounds than there are tokens.  Every loop of
the parser is of this kind, but the one over the stages of AGGREGATE.
-/

namespace InventixDB
namespace Sql

open Storage
open InventixDB.Sql.Parser

-- a statement of the parser is a chain of up to twenty calls
set_option synthInstance.maxSize 4000

/-! ## Token lists -/

/-- What the lexer hands to the parser: texts where the parser copies them, and a token for the
end of the input. -/
structure TokenStream where
  tokens : List Token
  texts : ∀ t ∈ tokens, t.type ∈ textTypes → t.value.isSome
  last : ∃ t, tokens.getLast? = some t ∧ t.type = .eof

theorem nextToken_hasText (line : Nat) (c : UInt8) (rest : List UInt8) :
    ∀ t ∈ (nextToken line c rest).token, t.type ∈ textTypes → t.value.isSome := by
  have hkeywords : ∀ k ∈ keywords, k.2 ∉ textTypes := by decide +kernel
  unfold nextToken
  cases byteClass c with
  | space => simp
  | unexpected => simp
  | symbol type =>
      rintro t ht _
      cases ht
      rfl
  | quote =>
      rintro t ht _
      cases ht
      rfl
  | digit =>
      rintro t ht _
      cases ht
      rfl
  | word =>
      rintro t ht htype
      cases ht
      simp only [wordToken] at htype ⊢
      rw [if_pos]
      · rfl
      · by_contra hne
        generalize CStr.ofBytes (c :: rest.takeWhile isWordByte) = word at htype hne
        unfold checkKeyword at htype hne
        cases hfind : keywords.find? fun k => CStr.sameIgnoringCase word (CStr.lit k.1) with
        | none =>
            rw [hfind] at hne
            exact hne rfl
        | some k =>
            rw [hfind] at htype
            exact hkeywords k (List.mem_of_find?_eq_some hfind) htype

theorem lex_hasText (line : Nat) (bs : List UInt8) :
    ∀ t ∈ (lex line bs).1, t.type ∈ textTypes → t.value.isSome := by
  fun_induction lex line bs with
  | case1 => simp
  | case2 line c rest round r ih =>
      intro t ht
      rcases List.mem_append.mp ht with ht | ht
      · exact nextToken_hasText line c rest t (Option.mem_toList.mp ht)
      · exact ih t ht

/-- The tokens of a query. -/
def tokenStream (query : CStr) : TokenStream where
  tokens := tokenize query
  texts := by
    intro t ht htype
    rcases List.mem_append.mp ht with ht | ht
    · exact lex_hasText 1 query.val t ht htype
    · cases List.mem_singleton.mp ht
      exact absurd htype (show LexerTokenType.eof ∉ textTypes by decide)
  last := ⟨_, List.getLast?_concat, rfl⟩

/-- The parser is somewhere in the stream. -/
structure Within (ts : TokenStream) (ctx : ParserContext) : Prop where
  tokens : ctx.tokens = ts.tokens
  current : ctx.current ≤ ts.tokens.length

/-- And no loop runs out of rounds. -/
structure Reads (ts : TokenStream) (ctx : ParserContext) : Prop extends Within ts ctx where
  rounds : ts.tokens.length < ctx.rounds

/-! ## Parsers that end -/

variable {α β : Type} {strict : Bool} {ts : TokenStream} {room : Nat}

/-- The parser goes on at a token no earlier than before, or ends; a strict one ends with NULL. -/
def Result.Good (strict : Bool) (ts : TokenStream) (ctx : ParserContext) : Result α → Prop
  | .ok _ after => Reads ts after ∧ ctx.current ≤ after.current
  | .null => True
  | .exit => strict = false
  | .undefined => strict = false
  | .running => False

/-- The parser ends wherever fewer than `room` tokens are left. -/
class Ends (strict : Bool) (ts : TokenStream) (room : Nat) (p : Parser α) : Prop where
  good : ∀ ctx, Reads ts ctx → ts.tokens.length < ctx.current + room →
    (p ctx).Good strict ts ctx

instance endsPure (a : α) : Ends strict ts room (pure a : Parser α) where
  good _ hreads _ := ⟨hreads, Nat.le_refl _⟩

theorem Result.Good.bind {ctx : ParserContext} {p : Parser α} {f : α → Parser β}
    (hp : (p ctx).Good strict ts ctx)
    (hf : ∀ a after, p ctx = .ok a after → Reads ts after → ctx.current ≤ after.current →
      (f a after).Good strict ts after) :
    ((p >>= f) ctx).Good strict ts ctx := by
  change (Parser.bind p f ctx).Good strict ts ctx
  unfold Parser.bind
  cases hresult : p ctx with
  | ok a after =>
      rw [hresult] at hp
      have hnext := hf a after hresult hp.1 hp.2
      dsimp only
      cases hrest : f a after with
      | ok b final =>
          rw [hrest] at hnext
          exact ⟨hnext.1, hp.2.trans hnext.2⟩
      | null => trivial
      | exit => rwa [hrest] at hnext
      | undefined => rwa [hrest] at hnext
      | running => rwa [hrest] at hnext
  | null => trivial
  | exit => rwa [hresult] at hp
  | undefined => rwa [hresult] at hp
  | running => rwa [hresult] at hp

instance endsBind (p : Parser α) (f : α → Parser β) [hp : Ends strict ts room p]
    [hf : ∀ a, Ends strict ts room (f a)] : Ends strict ts room (p >>= f) where
  good ctx hreads hroom :=
    (hp.good ctx hreads hroom).bind fun a after _ hafter hle =>
      (hf a).good after hafter (by omega)

theorem Ends.bind {p : Parser α} {f : α → Parser β} (hp : Ends strict ts room p)
    (hf : ∀ a, Ends strict ts room (f a)) : Ends strict ts room (p >>= f) :=
  inferInstance

instance endsIte (c : Prop) [Decidable c] (p q : Parser α) [hp : Ends strict ts room p]
    [hq : Ends strict ts room q] : Ends strict ts room (if c then p else q) where
  good ctx hreads hroom := by
    split
    · exact hp.good ctx hreads hroom
    · exact hq.good ctx hreads hroom

instance endsFail : Ends strict ts room (fail : Parser α) where
  good _ _ _ := trivial

instance endsExit : Ends false ts room (Parser.exit : Parser α) where
  good _ _ _ := rfl

instance endsUndefined : Ends false ts room (undefined : Parser α) where
  good _ _ _ := rfl

/-! ## Tokens -/

/-- Where the tokens are used up, the current one is the end of the input. -/
theorem currentToken_eq {ctx : ParserContext} (hreads : Within ts ctx) :
    ∃ t, currentToken ctx = .ok t ctx ∧ t ∈ ts.tokens ∧
      (t.type ≠ .eof → ts.tokens[ctx.current]? = some t) := by
  obtain ⟨last, hlast, heof⟩ := ts.last
  unfold currentToken
  rw [hreads.tokens]
  cases hget : ts.tokens[ctx.current]? with
  | some t => exact ⟨t, rfl, List.mem_of_getElem? hget, fun _ => rfl⟩
  | none =>
      rw [hlast]
      exact ⟨last, rfl, List.mem_of_getLast? hlast, fun hne => absurd heof hne⟩

instance endsCurrentToken : Ends strict ts room currentToken where
  good ctx hreads _ := by
    obtain ⟨t, heq, _⟩ := currentToken_eq hreads.toWithin
    rw [heq]
    exact ⟨hreads, Nat.le_refl _⟩

instance endsCurrentType : Ends strict ts room currentType := by
  unfold currentType
  infer_instance

instance endsAdvance : Ends strict ts room advance where
  good ctx hreads _ := by
    have hlen : ctx.tokens.length = ts.tokens.length := by rw [hreads.tokens]
    have hcurrent := hreads.current
    unfold advance
    split
    · exact ⟨⟨⟨hreads.tokens, by dsimp only; omega⟩, hreads.rounds⟩, Nat.le_succ _⟩
    · exact ⟨hreads, Nat.le_refl _⟩

instance endsTryMatch (type : LexerTokenType) : Ends strict ts room (tryMatch type) := by
  unfold tryMatch
  infer_instance

instance endsConsume (type : LexerTokenType) : Ends strict ts room (consume type) := by
  unfold consume
  infer_instance

instance endsSkip (type : LexerTokenType) : Ends strict ts room (skip type) := by
  unfold skip
  infer_instance

instance endsNextType : Ends strict ts room nextType where
  good _ hreads _ := ⟨hreads, Nat.le_refl _⟩

instance endsBound : Ends strict ts room bound where
  good _ hreads _ := ⟨hreads, Nat.le_refl _⟩

/-- The types whose tokens have texts. -/
class HasText (type : LexerTokenType) : Prop where
  mem : type ∈ textTypes

instance hasTextIdentifier : HasText .identifier where
  mem := by decide

instance hasTextString : HasText .string where
  mem := by decide

instance hasTextIntLiteral : HasText .intLiteral where
  mem := by decide

theorem text_eq {t : Token} (hmem : t ∈ ts.tokens) (htext : t.type ∈ textTypes) :
    ∃ v, text t = pure v := by
  obtain ⟨v, hv⟩ := Option.isSome_iff_exists.mp (ts.texts t hmem htext)
  exact ⟨v, by unfold text; rw [hv]⟩

instance endsText (t : Token) : Ends false ts room (text t) := by
  unfold text
  split <;> infer_instance

instance endsConsumeText (type : LexerTokenType) : Ends false ts room (consumeText type) := by
  unfold consumeText
  infer_instance

theorem endsConsumeText_of_mem {type : LexerTokenType} (htype : type ∈ textTypes) :
    Ends strict ts room (consumeText type) where
  good ctx hreads hroom := by
    refine Result.Good.bind ((endsConsume type).good ctx hreads hroom) ?_
    intro t after hok hafter _
    obtain ⟨hmem, ht, _⟩ := consume_ok hok
    obtain ⟨v, hv⟩ := text_eq (hreads.tokens ▸ hmem) (ht ▸ htype)
    rw [hv]
    exact ⟨hafter, Nat.le_refl _⟩

instance endsConsumeTextOfHasText (type : LexerTokenType) [htype : HasText type] :
    Ends strict ts room (consumeText type) :=
  endsConsumeText_of_mem htype.mem

/-! ## Loops -/

/-- A round that goes on has consumed a token. -/
class Advances (strict : Bool) (ts : TokenStream) (room : Nat) (p : Parser (α × Bool)) :
    Prop extends Ends strict ts room p where
  further : ∀ ctx a after, Reads ts ctx → ts.tokens.length < ctx.current + room →
    p ctx = .ok (a, true) after → ctx.current < after.current

theorem good_iterate {body : α → Parser (α × Bool)}
    [hbody : ∀ a, Advances strict ts room (body a)] {fuel : Nat} {a : α} {ctx : ParserContext}
    (hreads : Reads ts ctx) (hroom : ts.tokens.length < ctx.current + room)
    (hfuel : ts.tokens.length < ctx.current + fuel) :
    (iterate body fuel a ctx).Good strict ts ctx := by
  induction fuel generalizing a ctx with
  | zero =>
      have hcurrent := hreads.current
      omega
  | succ fuel ih =>
      refine ((hbody a).good ctx hreads hroom).bind ?_
      rintro ⟨b, more⟩ after hok hafter hle
      cases more with
      | true =>
          have hlt := (hbody a).further ctx b after hreads hroom hok
          exact ih hafter (by omega) (by omega)
      | false => exact ⟨hafter, Nat.le_refl _⟩

instance endsLoop (body : α → Parser (α × Bool)) (a : α)
    [∀ a, Advances strict ts room (body a)] : Ends strict ts room (loop body a) where
  good _ hreads hroom := by
    have hrounds := hreads.rounds
    exact good_iterate hreads hroom (by omega)

instance advancesBind (p : Parser β) (f : β → Parser (α × Bool)) [hp : Ends strict ts room p]
    [hf : ∀ b, Advances strict ts room (f b)] : Advances strict ts room (p >>= f) where
  further ctx a final hreads hroom hok := by
    obtain ⟨b, after, hb, hrest⟩ := ok_of_bind hok
    have hgood := hp.good ctx hreads hroom
    rw [hb] at hgood
    have hlt := (hf b).further after a final hgood.1 (by have := hgood.2; omega) hrest
    have hle := hgood.2
    omega

/-! ## Tokens that are consumed -/

/-- The parser goes on behind the current token. -/
def Moves (p : Parser α) (ctx : ParserContext) : Prop :=
  ∀ a after, p ctx = .ok a after → ctx.current < after.current

theorem moves_advance {ctx : ParserContext} {t : Token} (hreads : Reads ts ctx)
    (ht : currentToken ctx = .ok t ctx) (htype : t.type ≠ .eof) : Moves advance ctx := by
  rintro _ after hok
  obtain ⟨t', heq, _, hget⟩ := currentToken_eq hreads.toWithin
  rw [heq] at ht
  cases ht
  have hlt := (List.getElem?_eq_some_iff.mp (hget htype)).1
  rw [← hreads.tokens] at hlt
  cases hok
  simp [hlt]

theorem moves_consume {ctx : ParserContext} {type : LexerTokenType} (hreads : Reads ts ctx)
    (htype : type ≠ .eof) : Moves (consume type) ctx := by
  intro t after hok
  obtain ⟨t, ctx₁, ht, hrest⟩ := ok_of_bind hok
  obtain ⟨_, hctx⟩ := currentToken_ok ht
  subst hctx
  split at hrest
  · next heq =>
      obtain ⟨_, ctx₂, hadvance, hret⟩ := ok_of_bind hrest
      cases hret
      exact moves_advance hreads ht (heq ▸ htype) _ _ hadvance
  · cases hrest

theorem Moves.bind {p : Parser α} {f : α → Parser β} {ctx : ParserContext} (hp : Moves p ctx)
    [hends : Ends false ts room p] [hf : ∀ a, Ends false ts room (f a)] (hreads : Reads ts ctx)
    (hroom : ts.tokens.length < ctx.current + room) : Moves (p >>= f) ctx := by
  intro b final hok
  obtain ⟨a, after, ha, hrest⟩ := ok_of_bind hok
  have hgood := hends.good ctx hreads hroom
  rw [ha] at hgood
  have hnext := (hf a).good after hgood.1 (by have := hgood.2; omega)
  rw [hrest] at hnext
  exact Nat.lt_of_lt_of_le (hp a after ha) hnext.2

theorem current_of_tryMatch {ctx after : ParserContext} {type : LexerTokenType}
    (hreads : Reads ts ctx) (htype : type ≠ .eof) (hok : tryMatch type ctx = .ok true after) :
    ctx.current < after.current := by
  obtain ⟨current, ctx₁, hcurrent, hrest⟩ := ok_of_bind hok
  obtain ⟨t, ctx₂, ht, hret⟩ := ok_of_bind hcurrent
  obtain ⟨_, hctx⟩ := currentToken_ok ht
  subst hctx
  cases hret
  split at hrest
  · next heq =>
      obtain ⟨_, ctx₂, hadvance, hret⟩ := ok_of_bind hrest
      cases hret
      exact moves_advance hreads ht (heq ▸ htype) _ _ hadvance
  · cases hrest

/-- A loop whose rounds go on behind a token they look for. -/
theorem advances_of_tryMatch {type : LexerTokenType} (htype : type ≠ .eof)
    {f : Bool → Parser (α × Bool)} (hends : ∀ found, Ends strict ts room (f found))
    (hstop : ∀ ctx a after, f false ctx ≠ .ok (a, true) after) :
    Advances strict ts room (tryMatch type >>= f) where
  further ctx a final hreads hroom hok := by
    obtain ⟨found, after, hfound, hrest⟩ := ok_of_bind hok
    cases found with
    | true =>
        have hlt := current_of_tryMatch hreads htype hfound
        have hmatch : Ends strict ts room (tryMatch type) := inferInstance
        have hgood := hmatch.good ctx hreads hroom
        rw [hfound] at hgood
        have hle := (hends true).good after hgood.1 (by omega)
        rw [hrest] at hle
        exact Nat.lt_of_lt_of_le hlt hle.2
    | false => exact absurd hrest (hstop after a final)

/-- `, item`: the round goes on behind a comma. -/
instance advancesComma (a : α) :
    Advances strict ts room (do return (a, ← tryMatch .comma)) where
  further ctx b after hreads _ hok := by
    obtain ⟨more, ctx₁, hmatch, hret⟩ := ok_of_bind hok
    cases hret
    exact current_of_tryMatch hreads (by decide) hmatch

instance endsCommaList (item : Parser α) [Ends strict ts room item] :
    Ends strict ts room (commaList item) := by
  unfold commaList
  infer_instance

/-- A loop that asks for the current token: the rounds that go on consume it. -/
theorem advances_of_currentToken {f : Token → Parser (α × Bool)}
    (hends : ∀ t, Ends strict ts room (f t))
    (hmoves : ∀ t ctx a after, Reads ts ctx → ts.tokens.length < ctx.current + room →
      currentToken ctx = .ok t ctx → f t ctx = .ok (a, true) after → ctx.current < after.current) :
    Advances strict ts room (currentToken >>= f) where
  further ctx a after hreads hroom hok := by
    obtain ⟨t, ctx₁, ht, hrest⟩ := ok_of_bind hok
    obtain ⟨_, hctx⟩ := currentToken_ok ht
    subst hctx
    exact hmoves t ctx₁ a after hreads hroom ht hrest

instance lawfulMonadParser : LawfulMonad Parser :=
  LawfulMonad.mk' Parser
    (fun p => by
      funext ctx
      change Parser.bind p Parser.pure ctx = p ctx
      unfold Parser.bind
      cases p ctx <;> rfl)
    (fun _ _ => rfl)
    (fun p f g => by
      funext ctx
      change Parser.bind (Parser.bind p f) g ctx = Parser.bind p (fun a => Parser.bind (f a) g) ctx
      unfold Parser.bind
      cases p ctx <;> rfl)

theorem currentType_bind {f : LexerTokenType → Parser α} :
    (currentType >>= f) = currentToken >>= fun t => f t.type := by
  simp [currentType]

/-! ## Expressions -/

theorem Ends.notStrict {p : Parser α} (hp : Ends strict ts room p) : Ends false ts room p where
  good ctx hreads hroom := by
    have hgood := hp.good ctx hreads hroom
    cases hresult : p ctx with
    | ok a after => rwa [hresult] at hgood
    | null => trivial
    | exit => rfl
    | undefined => rfl
    | running => rwa [hresult] at hgood

theorem endsLogical {type : LexerTokenType} (htype : type ≠ .eof) (op : CStr)
    (operand : Parser Expr) [hoperand : Ends strict ts room operand] :
    Ends strict ts room (parseLogical type op operand) := by
  have hends := hoperand.notStrict
  have hround : ∀ left : Expr, Advances strict ts room (do
      if (← currentType) = type then
        let _ ← consume type
        let right ← operand
        return (Expr.binary left op right, true)
      else
        return (left, false)) := by
    intro left
    rw [currentType_bind]
    refine advances_of_currentToken (fun t => inferInstance) ?_
    intro t ctx a after hreads hroom _ hok
    split at hok
    · exact (moves_consume hreads htype).bind hreads hroom _ _ hok
    · cases hok
  unfold parseLogical
  infer_instance

instance endsLogicalOr (comparison : Parser Expr) [Ends strict ts room comparison] :
    Ends strict ts room (parseLogicalOr comparison) := by
  have hand : Ends strict ts room (parseLogicalAnd comparison) := endsLogical (by decide) _ _
  exact endsLogical (by decide) _ _

instance endsSelectColumn : Ends strict ts room parseSelectColumn := by
  unfold parseSelectColumn
  refine Ends.bind inferInstance fun type => ?_
  extract_lets +lift funcType behindValue behindParen
  have hvalue : ∀ value, Ends strict ts room (behindValue value) := by
    intro value
    unfold behindValue
    infer_instance
  have hparen : ∀ u, Ends strict ts room (behindParen u) := by
    intro u
    unfold behindParen
    infer_instance
  clear_value funcType behindParen
  split
  · infer_instance
  · infer_instance

instance endsOrderColumn : Ends strict ts room parseOrderColumn := by
  unfold parseOrderColumn
  infer_instance

instance endsSelectBody (expression : Parser Expr) [Ends strict ts room expression] :
    Ends strict ts room (parseSelectBody expression) := by
  unfold parseSelectBody
  refine Ends.bind inferInstance fun _ => ?_
  refine Ends.bind inferInstance fun _ => ?_
  refine Ends.bind inferInstance fun _ => ?_
  extract_lets behindColumns
  have hcolumns : ∀ columns, Ends strict ts room (behindColumns columns) := by
    intro columns
    unfold behindColumns
    refine Ends.bind inferInstance fun _ => ?_
    refine Ends.bind inferInstance fun tableName => ?_
    refine Ends.bind inferInstance fun _ => ?_
    extract_lets behindWhere
    have hwhere : ∀ whereClause, Ends strict ts room (behindWhere whereClause) := by
      intro whereClause
      unfold behindWhere
      refine Ends.bind inferInstance fun _ => ?_
      extract_lets behindGroup
      have hgroup : ∀ groupBy, Ends strict ts room (behindGroup groupBy) := by
        intro groupBy
        unfold behindGroup
        refine Ends.bind inferInstance fun _ => ?_
        extract_lets behindOrder
        have horder : ∀ orderColumns, Ends strict ts room (behindOrder orderColumns) := by
          intro orderColumns
          unfold behindOrder
          refine Ends.bind inferInstance fun _ => ?_
          extract_lets behindLimit
          have hlimit : ∀ limits, Ends strict ts room (behindLimit limits) := by
            rintro ⟨limit, offset⟩
            unfold behindLimit
            infer_instance
          infer_instance
        infer_instance
      infer_instance
    infer_instance
  infer_instance

instance endsOperator : Ends false ts room parseOperator := by
  unfold parseOperator
  infer_instance

/-- The token behind a parenthesis: there is one, for the parenthesis is not the last token. -/
instance endsOperand (expression : Parser Expr) [Ends false ts room expression] :
    Ends false ts room (parseOperand expression) := by
  unfold parseOperand
  refine Ends.bind inferInstance fun type => ?_
  extract_lets +lift peek
  have hpeek : Ends false ts room peek := by
    constructor
    intro ctx hreads _
    unfold peek
    split
    · exact ⟨hreads, Nat.le_refl _⟩
    · rfl
  clear_value peek
  infer_instance

/-- Each parenthesis consumes a token. -/
instance endsComparison (fuel : Nat) : Ends false ts fuel (parseComparison fuel) := by
  induction fuel with
  | zero =>
      constructor
      intro ctx hreads hroom
      have hcurrent := hreads.current
      omega
  | succ fuel ih =>
      constructor
      intro ctx hreads hroom
      refine Result.Good.bind ((endsTryMatch .lparen).good ctx hreads hroom) ?_
      intro found after hok hafter hle
      cases found with
      | true =>
          have hlt := current_of_tryMatch hreads (by decide) hok
          have hrest : Ends false ts fuel (do
              let node ← parseLogicalOr (parseComparison fuel)
              let _ ← consume .rparen
              return node) := inferInstance
          exact hrest.good after hafter (by omega)
      | false =>
          have hroom : ts.tokens.length < after.current + (fuel + 1) := by omega
          refine Result.Good.bind ((endsConsumeText .identifier).good after hafter hroom) ?_
          intro column behind hcolumn hbehind _
          have hmoves : Moves (consumeText .identifier) after :=
            (moves_consume hafter (by decide)).bind hafter hroom
          have hlt := hmoves column behind hcolumn
          have hrest : Ends false ts fuel (do
              let op ← parseOperator
              return Expr.binary (.identifier column) op
                (← parseOperand (parseLogicalOr (parseComparison fuel)))) := inferInstance
          exact hrest.good behind hbehind (by omega)

instance endsExpression : Ends false ts room parseExpression where
  good ctx hreads _ := by
    have hrounds := hreads.rounds
    have hor : Ends false ts ctx.rounds (parseLogicalOr (parseComparison ctx.rounds)) :=
      inferInstance
    exact hor.good ctx hreads (by omega)

instance endsWhere : Ends false ts room parseWhere := by
  unfold parseWhere
  infer_instance

instance endsSelect : Ends false ts room parseSelect := by
  unfold parseSelect
  infer_instance

/-! ## Tables and rows -/

instance endsColumnDef : Ends strict ts room parseColumnDef := by
  unfold parseColumnDef
  refine Ends.bind inferInstance fun name => ?_
  refine Ends.bind inferInstance fun type => ?_
  split
  · infer_instance
  · infer_instance

instance endsCreateTable : Ends strict ts room parseCreateTable := by
  unfold parseCreateTable
  infer_instance

instance endsInsertValue : Ends strict ts room parseInsertValue := by
  unfold parseInsertValue
  refine Ends.bind inferInstance fun type => ?_
  split
  · infer_instance
  · split
    · next htype =>
        refine endsConsumeText_of_mem ?_
        rcases htype with rfl | rfl | rfl | rfl <;> decide
    · infer_instance

instance endsInsertRow : Ends strict ts room parseInsertRow := by
  unfold parseInsertRow
  infer_instance

instance endsInsert : Ends strict ts room parseInsert := by
  unfold parseInsert
  dsimp only
  infer_instance

instance endsDelete : Ends false ts room parseDelete := by
  unfold parseDelete
  infer_instance

/-- The value that is copied has one of the types with a text. -/
instance endsAssignment : Ends strict ts room parseAssignment := by
  unfold parseAssignment
  refine Ends.bind inferInstance fun col => Ends.bind inferInstance fun _ => ?_
  constructor
  intro ctx hreads hroom
  refine Result.Good.bind (endsCurrentToken.good ctx hreads hroom) ?_
  intro val after hval hafter hle
  obtain ⟨hmem, _⟩ := currentToken_ok hval
  split
  · next htype =>
      have htext : val.type ∈ textTypes := by
        rcases htype with h | h | h | h <;> rw [h] <;> decide
      obtain ⟨v, hv⟩ := text_eq (hreads.tokens ▸ hmem) htext
      rw [hv, pure_bind]
      have hrest : Ends strict ts room (do advance; return (col, v)) := inferInstance
      exact hrest.good after hafter (by omega)
  · trivial

instance endsUpdate : Ends false ts room parseUpdate := by
  unfold parseUpdate
  dsimp only
  infer_instance

instance endsDropTable : Ends strict ts room parseDropTable := by
  unfold parseDropTable
  refine Ends.bind inferInstance fun type => ?_
  extract_lets behindTable
  split
  · infer_instance
  · infer_instance
  · infer_instance

instance endsCreateIndex : Ends strict ts room parseCreateIndex := by
  unfold parseCreateIndex
  infer_instance

/-! ## Users and databases -/

instance endsCreateUser : Ends strict ts room parseCreateUser := by
  unfold parseCreateUser
  infer_instance

instance endsCreateDb : Ends strict ts room parseCreateDb := by
  unfold parseCreateDb
  infer_instance

instance endsDropDb : Ends strict ts room parseDropDb := by
  unfold parseDropDb
  infer_instance

instance endsShowDbs : Ends strict ts room parseShowDbs := by
  unfold parseShowDbs
  infer_instance

instance endsShowTables : Ends strict ts room parseShowTables := by
  unfold parseShowTables
  infer_instance

instance endsUseDb : Ends false ts room parseUseDb := by
  unfold parseUseDb
  infer_instance

/-! ## Transactions -/

instance endsCheckpoint : Ends strict ts room parseCheckpoint := by
  unfold parseCheckpoint
  infer_instance

instance endsBegin : Ends strict ts room parseBegin := by
  unfold parseBegin
  infer_instance

instance endsCommit : Ends strict ts room parseCommit := by
  unfold parseCommit
  infer_instance

instance endsRollback : Ends strict ts room parseRollback := by
  unfold parseRollback
  infer_instance

instance endsSavepoint : Ends strict ts room parseSavepoint := by
  unfold parseSavepoint
  infer_instance

instance endsReleaseSavepoint : Ends strict ts room parseReleaseSavepoint := by
  unfold parseReleaseSavepoint
  infer_instance

/-! ## Changing tables -/

instance endsAlteredType : Ends false ts room parseAlteredType := by
  unfold parseAlteredType
  infer_instance

/-- A constraint is consumed before the next one. -/
instance advancesColumnConstraint (alter : AlterTable) :
    Advances false ts room (parseColumnConstraint alter) := by
  unfold parseColumnConstraint
  rw [currentType_bind]
  refine advances_of_currentToken (fun t => ?_) ?_
  · split
    · infer_instance
    · infer_instance
    · infer_instance
    · infer_instance
  · intro t ctx a after hreads hroom ht hok
    generalize htype : t.type = type at hok
    split at hok
    · next htype =>
        exact (moves_advance hreads ht (by simp [htype])).bind hreads hroom _ _ hok
    · next htype =>
        exact (moves_advance hreads ht (by simp [htype])).bind hreads hroom _ _ hok
    · next htype =>
        exact (moves_advance hreads ht (by simp [htype])).bind hreads hroom _ _ hok
    · cases hok

instance endsFkAction (before : FkAction) : Ends strict ts room (parseFkAction before) := by
  unfold parseFkAction
  infer_instance

instance advancesReferenceAction (alter : AlterTable) :
    Advances strict ts room (parseReferenceAction alter) := by
  unfold parseReferenceAction
  refine advances_of_tryMatch (by decide) (fun found => inferInstance) ?_
  intro ctx a after hok
  cases hok

instance endsAddColumn (table : CStr) : Ends false ts room (parseAddColumn table) := by
  unfold parseAddColumn
  infer_instance

instance endsAddConstraint (table : CStr) : Ends strict ts room (parseAddConstraint table) := by
  unfold parseAddConstraint
  infer_instance

instance endsAlteration (table : CStr) : Ends false ts room (parseAlteration table) := by
  unfold parseAlteration
  refine Ends.bind inferInstance fun type => ?_
  split
  · -- ADD: a column or a constraint
    refine Ends.bind inferInstance fun _ => Ends.bind inferInstance fun behind => ?_
    split
    · infer_instance
    · infer_instance
    · infer_instance
    · infer_instance
  · infer_instance
  · infer_instance
  · infer_instance
  · infer_instance

instance endsAlterTable : Ends false ts room parseAlterTable := by
  unfold parseAlterTable
  refine Ends.bind inferInstance fun alter => ?_
  extract_lets behindAlter
  have halter : ∀ u, Ends false ts room (behindAlter u) := by
    intro u
    unfold behindAlter
    refine Ends.bind inferInstance fun table => Ends.bind inferInstance fun node => ?_
    refine Ends.bind inferInstance fun _ => ?_
    split <;> infer_instance
  clear_value behindAlter
  infer_instance

/-! ## Files -/

instance endsDatabaseName : Ends strict ts room parseDatabaseName := by
  unfold parseDatabaseName
  infer_instance

instance endsBackup : Ends strict ts room parseBackup := by
  unfold parseBackup
  dsimp only
  infer_instance

instance endsRestore : Ends strict ts room parseRestore := by
  unfold parseRestore
  infer_instance

instance endsExport : Ends strict ts room parseExport := by
  unfold parseExport
  dsimp only
  infer_instance

instance endsImport : Ends strict ts room parseImport := by
  unfold parseImport
  infer_instance

/-! ## Documents -/

theorem text_ok {t : Token} {v : CStr} {ctx after : ParserContext}
    (hok : text t ctx = .ok v after) : t.value = some v ∧ after = ctx := by
  unfold text at hok
  cases hv : t.value with
  | some w =>
      rw [hv] at hok
      cases hok
      exact ⟨rfl, rfl⟩
  | none =>
      rw [hv] at hok
      cases hok

theorem strcat_ok {size : Nat} {buffer s v : CStr} {ctx after : ParserContext}
    (hok : strcat size buffer s ctx = .ok v after) :
    v = buffer ++ s ∧ (buffer ++ s).length < size ∧ after = ctx := by
  unfold strcat at hok
  split at hok
  · next hfits =>
      cases hok
      exact ⟨rfl, hfits, rfl⟩
  · cases hok

instance endsStrcat (size : Nat) (buffer s : CStr) : Ends false ts room (strcat size buffer s) := by
  unfold strcat
  infer_instance

/-- How many braces are open behind a token. -/
def braceDepth (depth : Nat) (type : LexerTokenType) : Nat :=
  if type = .lbrace then depth + 1 else if type = .rbrace then depth - 1 else depth

/-- One round of `parse_find` and its relatives between the braces. -/
def bracesRound (size : Nat) (s : CStr × Nat) : Parser ((CStr × Nat) × Bool) := do
  let t ← currentToken
  if s.2 = 0 ∨ t.type = .eof then
    return (s, false)
  if braceDepth s.2 t.type = 0 then
    advance
    return ((s.1, braceDepth s.2 t.type), true)
  let buffer ← strcat size s.1 (← text t)
  let buffer ← strcat size buffer (CStr.lit " ")
  advance
  return ((buffer, braceDepth s.2 t.type), true)

theorem parseBraces_eq (size : Nat) : parseBraces size = (do
    let _ ← consume .lbrace
    let r ← loop (bracesRound size) (CStr.lit "\x7b", 1)
    strcat size r.1 (CStr.lit "\x7d")) := rfl

instance advancesBracesRound (size : Nat) (s : CStr × Nat) :
    Advances false ts room (bracesRound size s) := by
  unfold bracesRound
  refine advances_of_currentToken (fun t => inferInstance) ?_
  · intro t ctx a after hreads hroom ht hok
    split at hok
    · cases hok
    · next hmore =>
        have hne : t.type ≠ .eof := fun heof => hmore (.inr heof)
        split at hok
        · exact (moves_advance hreads ht hne).bind hreads hroom _ _ hok
        · obtain ⟨v, ctx₁, htext, hcats⟩ := ok_of_bind hok
          obtain ⟨_, ctx₂, hcat, hblank⟩ := ok_of_bind hcats
          obtain ⟨_, ctx₃, hcat', hadvance⟩ := ok_of_bind hblank
          rw [(strcat_ok hcat').2.2, (strcat_ok hcat).2.2, (text_ok htext).2] at hadvance
          exact (moves_advance hreads ht hne).bind hreads hroom _ _ hadvance

instance endsBraces (size : Nat) : Ends false ts room (parseBraces size) := by
  rw [parseBraces_eq]
  infer_instance

/-- One round of `parse_doc_insert` between the braces. -/
def flatBracesRound (size : Nat) (buffer : CStr) : Parser (CStr × Bool) := do
  let t ← currentToken
  if t.type = .rbrace ∨ t.type = .eof then
    return (buffer, false)
  let buffer ← strcat size buffer (← text t)
  let buffer ← strcat size buffer (CStr.lit " ")
  advance
  return (buffer, true)

theorem parseFlatBraces_eq (size : Nat) : parseFlatBraces size = (do
    let _ ← consume .lbrace
    let buffer ← loop (flatBracesRound size) (CStr.lit "\x7b")
    let _ ← consume .rbrace
    strcat size buffer (CStr.lit "\x7d")) := rfl

instance advancesFlatBracesRound (size : Nat) (buffer : CStr) :
    Advances false ts room (flatBracesRound size buffer) := by
  unfold flatBracesRound
  refine advances_of_currentToken (fun t => inferInstance) ?_
  intro t ctx a after hreads hroom ht hok
  split at hok
  · cases hok
  · next hmore =>
      have hne : t.type ≠ .eof := fun heof => hmore (.inr heof)
      obtain ⟨v, ctx₁, htext, hcats⟩ := ok_of_bind hok
      obtain ⟨_, ctx₂, hcat, hblank⟩ := ok_of_bind hcats
      obtain ⟨_, ctx₃, hcat', hadvance⟩ := ok_of_bind hblank
      rw [(strcat_ok hcat').2.2, (strcat_ok hcat).2.2, (text_ok htext).2] at hadvance
      exact (moves_advance hreads ht hne).bind hreads hroom _ _ hadvance

instance endsFlatBraces (size : Nat) : Ends false ts room (parseFlatBraces size) := by
  rw [parseFlatBraces_eq]
  infer_instance

instance endsDocInsert : Ends false ts room parseDocInsert := by
  unfold parseDocInsert
  dsimp only
  infer_instance

/-- The id is copied from a token with a text. -/
instance endsDocId : Ends strict ts room parseDocId := by
  unfold parseDocId
  refine Ends.bind inferInstance fun type => ?_
  split
  · next htype =>
      have hends : Ends strict ts room (consumeText type) := by
        refine endsConsumeText_of_mem ?_
        rcases htype with rfl | rfl <;> decide
      infer_instance
  · infer_instance

instance endsDocGet : Ends strict ts room parseDocGet := by
  unfold parseDocGet
  infer_instance

instance endsDhundo : Ends strict ts room parseDhundo := by
  unfold parseDhundo
  refine Ends.bind inferInstance fun _ => Ends.bind inferInstance fun collection => ?_
  refine Ends.bind inferInstance fun filtered => ?_
  extract_lets behindId
  split
  · refine Ends.bind inferInstance fun _ => Ends.bind inferInstance fun _ => ?_
    refine Ends.bind inferInstance fun docId => ?_
    split <;> infer_instance
  · infer_instance

instance endsDocRemove : Ends strict ts room parseDocRemove := by
  unfold parseDocRemove
  refine Ends.bind inferInstance fun _ => Ends.bind inferInstance fun collection => ?_
  refine Ends.bind inferInstance fun docId => ?_
  split <;> infer_instance

instance endsCreateCollection : Ends strict ts room parseCreateCollection := by
  unfold parseCreateCollection
  infer_instance

instance endsFind : Ends false ts room parseFind := by
  unfold parseFind
  dsimp only
  infer_instance

instance endsUpsert : Ends false ts room parseUpsert := by
  unfold parseUpsert
  dsimp only
  infer_instance

/-! ## Statements but AGGREGATE -/

instance endsCreate : Ends strict ts room parseCreate := by
  unfold parseCreate
  refine Ends.bind inferInstance fun _ => Ends.bind inferInstance fun type => ?_
  split <;> infer_instance

instance endsDrop : Ends strict ts room parseDrop := by
  unfold parseDrop
  infer_instance

/-- How the statements start whose parser can do more than fail: it reads a condition, copies a text
it has not checked, or fills a buffer. -/
def looseTypes : List LexerTokenType :=
  [.kwUse, .kwSelect, .kwRakho, .kwNikalo, .kwUpdate, .kwAlter, .kwFind, .kwUpsert, .kwAggregate]

/-- How a statement starts.  Of any other token the parser only reports the text. -/
def startTypes : List LexerTokenType :=
  looseTypes ++ [.kwCreate, .kwBanao, .kwShow, .kwKey, .kwUser, .kwDatabase, .kwTable, .kwInsert,
    .kwDhundo, .kwMangwao, .kwHatao, .kwDrop, .kwGirao, .kwDelete, .kwCheckpoint, .kwIndex,
    .kwBegin, .kwStart, .kwCommit, .kwRollback, .kwSavepoint, .kwRelease, .kwBackup, .kwRestore,
    .kwExport, .kwImport, .identifier]

theorem parseFrom_of_stray {t : Token} (hstray : t.type ∉ startTypes) :
    parseFrom t = (do let _ ← text t; fail) := by
  obtain ⟨type, value, line⟩ := t
  cases type <;> first
    | rfl
    | exact absurd (by simp [startTypes, looseTypes]) hstray

theorem endsFrom {t : Token} (hmem : t ∈ ts.tokens) (hstart : t.type ∈ startTypes)
    (htype : t.type ∉ looseTypes) : Ends strict ts room (parseFrom t) := by
  unfold parseFrom
  split <;> first
    | infer_instance
    | (refine absurd ?_ htype; simp [looseTypes, *]; done)
    | skip
  · refine Ends.bind inferInstance fun behind => ?_
    split <;> infer_instance
  · next hidentifier =>
      obtain ⟨v, hv⟩ := text_eq hmem (by rw [hidentifier]; decide)
      rw [hv, pure_bind]
      infer_instance
  · simp_all [startTypes, looseTypes]

theorem endsFrom_of_ne {t : Token} (hmem : t ∈ ts.tokens) (htype : t.type ≠ .kwAggregate) :
    Ends false ts room (parseFrom t) := by
  by_cases hloose : t.type ∈ looseTypes
  · unfold parseFrom
    simp only [looseTypes, List.mem_cons, List.not_mem_nil, or_false] at hloose
    rcases hloose with h | h | h | h | h | h | h | h | h <;> rw [h]
    all_goals first
      | infer_instance
      | exact absurd h htype
  · by_cases hstart : t.type ∈ startTypes
    · exact endsFrom hmem hstart hloose
    · rw [parseFrom_of_stray hstart]
      infer_instance

end Sql
end InventixDB
