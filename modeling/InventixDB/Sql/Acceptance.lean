import InventixDB.Sql.Spans
import InventixDB.Sql.StatementEnds

/-!
# Acceptance — which of the accepted queries are read as a whole

A query is accepted in part when the lexer drops a byte of it, or when the parser has a statement
and leaves tokens behind.  The first needs a byte that starts no token, the second a token behind
the semicolon of a statement, or behind the last word of one that needs none.
-/

namespace InventixDB
namespace Sql

open Storage
open Lib
open Lib.Phrase
open InventixDB.Sql.Parser

variable {α β : Type} {ts : TokenStream}

namespace Grammar

/-! ## Statements -/

def UseDb : Phrase Token :=
  seq [Tok .kwUse, Maybe [.kwDatabase], Tok .identifier, Maybe [.semicolon]]

/-- `BEGIN` or `START TRANSACTION`, and whichever a second TRANSACTION -/
def Begin : Phrase Token :=
  seq [Either (OfType [.kwBegin]) (seq []) (Optional (OfType [.kwStart]) (Tok .kwTransaction)),
    Maybe [.kwTransaction], Maybe [.semicolon]]

def Commit : Phrase Token :=
  seq [Tok .kwCommit, Maybe [.kwTransaction], Maybe [.semicolon]]

def Rollback : Phrase Token :=
  seq [Tok .kwRollback,
    Either (OfType [.kwTo]) (seq [Maybe [.kwSavepoint], Tok .identifier, Maybe [.semicolon]])
      (seq [Maybe [.kwTransaction], Maybe [.semicolon]])]

def Savepoint : Phrase Token :=
  seq [Tok .kwSavepoint, Tok .identifier, Maybe [.semicolon]]

def ReleaseSavepoint : Phrase Token :=
  seq [Tok .kwRelease, Maybe [.kwSavepoint], Tok .identifier, Maybe [.semicolon]]

/-- Up to the first semicolon outside braces. -/
def Closed (flat : Bool) : Phrase Token :=
  fun before behind => behindSemicolon flat 0 before = behind

/-- The extent of the statement that starts with the type. -/
def Statement : LexerTokenType → Phrase Token
  | .kwUse => UseDb
  | .kwBegin | .kwStart => Begin
  | .kwCommit => Commit
  | .kwRollback => Rollback
  | .kwSavepoint => Savepoint
  | .kwRelease => ReleaseSavepoint
  | .kwRakho => Closed true
  | _ => Closed false

end Grammar

open Grammar

/-- Nothing is left but the end of the input, or a semicolon in front of it. -/
def AtEnd (rest : List Token) : Prop :=
  rest.map Token.type = [.eof] ∨ rest.map Token.type = [.semicolon, .eof]

/-- The statement the tokens start with reaches to their end. -/
def OneStatement (tokens : List Token) : Prop :=
  ∃ t ∈ tokens.head?, ∃ rest, Statement t.type tokens rest ∧ AtEnd rest

/-! ## Statements that need no semicolon -/

/-- Where the parser goes on, the phrase has one end. -/
theorem FollowsAt.ends_iff {p : Parser α} {R : Phrase Token} {ctx after : ParserContext} {a : α}
    (hp : FollowsAt ts p R ctx) (hok : p ctx = .ok a after) {behind : List Token} :
    R ctx.rest behind ↔ behind = after.rest := by
  constructor
  · intro hread
    rcases hp.reads hread with hrun | ⟨_, _, hok', hend⟩
    · rw [hok] at hrun
      cases hrun
    · rw [hok] at hok'
      cases hok'
      exact hend.symm
  · rintro rfl
    exact (hp.ok hok).1

theorem follows_end {a : α} :
    Follows ts (skip .semicolon >>= fun _ => pure a) (seq [Maybe [.semicolon]]) :=
  (follows_skip .semicolon (by decide)).bind fun _ => follows_pure a

theorem follows_transactionEnd {a : α} :
    Follows ts (skip .kwTransaction >>= fun _ => skip .semicolon >>= fun _ => pure a)
      (seq [Maybe [.kwTransaction], Maybe [.semicolon]]) :=
  (follows_skip .kwTransaction (by decide)).bind fun _ => follows_end

theorem follows_named {f : CStr → α} :
    Follows ts (do
      let name ← consumeText .identifier
      skip .semicolon
      return f name) (seq [Tok .identifier, Maybe [.semicolon]]) :=
  (follows_consumeText .identifier (by decide)).bind fun _ => follows_end

/-- The name is copied first, and then it is checked. -/
theorem follows_useDb : Follows ts parseUseDb UseDb := by
  refine (follows_consume .kwUse (by decide)).bind fun _ => ?_
  refine (follows_skip .kwDatabase (by decide)).bind fun _ ctx hctx => ?_
  obtain ⟨t, rest, hrest⟩ := hctx.exists_rest
  have hcurrent := currentToken_of_rest hrest
  by_cases ht : t.type = .identifier
  · obtain ⟨v, hv⟩ := text_eq (hctx.mem hrest) (by rw [ht]; decide)
    have hname : Follows ts (do
        let _ ← consume .identifier
        skip .semicolon
        return ASTNode.useDb v) (seq [Tok .identifier, Maybe [.semicolon]]) :=
      (follows_consume .identifier (by decide)).bind fun _ => follows_end
    refine (hname ctx hctx).of_eq ?_ fun _ => Iff.rfl
    rw [bind_of_ok hcurrent, hv, pure_bind]
  · refine .of_not_ok (fun node after hok => ?_) fun behind => ?_
    · rw [bind_of_ok hcurrent] at hok
      obtain ⟨v, ctx', htext, hok⟩ := ok_of_bind hok
      rw [(text_ok htext).2] at hok
      rw [bind_of_null ((consume_eq .identifier hrest).trans (if_neg ht))] at hok
      cases hok
    · rw [hrest, seq_one_cons]
      simp [ht]

theorem follows_begin : Follows ts parseBegin Begin := by
  have hhead : Follows ts (do
      if !(← tryMatch .kwBegin) then
        if ← tryMatch .kwStart then
          let _ ← consume .kwTransaction)
      (Either (OfType [.kwBegin]) (seq [])
        (Optional (OfType [.kwStart]) (Tok .kwTransaction))) :=
    follows_tryMatch (by decide) (follows_pure _)
      (follows_tryMatch (by decide) (follows_consume .kwTransaction (by decide)).map
        (follows_pure _))
  have heq : parseBegin = (do
      let _ ← (do
        if !(← tryMatch .kwBegin) then
          if ← tryMatch .kwStart then
            let _ ← consume .kwTransaction)
      skip .kwTransaction
      skip .semicolon
      return ASTNode.begin) := by
    simp only [parseBegin, bind_assoc, pure_bind, ite_bind]
  rw [heq]
  exact hhead.bind fun _ => follows_transactionEnd

theorem follows_commit : Follows ts parseCommit Commit :=
  (follows_consume .kwCommit (by decide)).bind fun _ => follows_transactionEnd

theorem follows_rollback : Follows ts parseRollback Rollback := by
  refine (follows_consume .kwRollback (by decide)).bind fun _ => Follows.single ?_
  exact follows_tryMatch (by decide)
    ((follows_skip .kwSavepoint (by decide)).bind fun _ => follows_named) follows_transactionEnd

theorem follows_savepoint : Follows ts parseSavepoint Savepoint :=
  (follows_consume .kwSavepoint (by decide)).bind fun _ => follows_named

theorem follows_releaseSavepoint : Follows ts parseReleaseSavepoint ReleaseSavepoint :=
  (follows_consume .kwRelease (by decide)).bind fun _ =>
    (follows_skip .kwSavepoint (by decide)).bind fun _ => follows_named

/-! ## Any statement -/

/-- How the statements start that need no semicolon. -/
def openTypes : List LexerTokenType :=
  [.kwUse, .kwBegin, .kwStart, .kwCommit, .kwRollback, .kwSavepoint, .kwRelease]

theorem statement_of_notMem {type : LexerTokenType} (hopen : type ∉ openTypes) :
    Statement type = Closed (decide (type = .kwRakho)) := by
  cases type <;> first
    | rfl
    | exact absurd (by decide) hopen

section From

variable {flat : Bool} {left : List Token} {t : Token} {P : List Token → Prop}
  {Q : α → List Token → Prop}

theorem Goes.lookAhead {f : Option LexerTokenType → Parser α} (hf : ∀ o, Goes ts P (f o) Q) :
    Goes ts P (nextType >>= f) Q :=
  fun ctx a after hctx hP hok => hf _ ctx a after hctx hP hok

theorem goes_create {type : LexerTokenType} (ht : t.type = type) (htype : isPlain type = true) :
    Goes ts (fun rest => Ahead flat 0 left rest ∧ rest.head? = some t) parseCreate
      fun _ rest => rest = left := by
  refine .advance ht htype fun _ => .peek fun type => ?_
  split
  · exact closes_createIndex left
  · exact closes_createUser left
  · exact closes_createDb left
  · exact closes_createCollection left
  · exact closes_createTable left
  · exact goes_fail

theorem goes_drop {type : LexerTokenType} (ht : t.type = type) (htype : isPlain type = true) :
    Goes ts (fun rest => Ahead flat 0 left rest ∧ rest.head? = some t) parseDrop
      fun _ rest => rest = left :=
  .advance ht htype fun _ => .peek fun _ => .ite (closes_dropDb left) (closes_dropTable left)

/-- Every other statement is closed by a semicolon. -/
theorem goes_from (hopen : t.type ∉ openTypes) :
    Goes ts (fun rest => Ahead (decide (t.type = .kwRakho)) 0 left rest ∧ rest.head? = some t)
      (parseFrom t) fun _ rest => rest = left := by
  unfold parseFrom
  split
  · next h => exact absurd (by rw [h]; decide) hopen
  · next h => exact goes_create h rfl
  · next h => exact goes_create h rfl
  · next h =>
      refine .lookAhead fun _ => .ite ?_ (closes_showTables left).forget
      exact .advance h rfl fun _ => closes_showDbs left
  · exact goes_fail
  · exact (closes_createUser left).forget
  · next h =>
      refine .lookAhead fun _ => ?_
      split
      · exact .advance h rfl fun _ => closes_dropDb left
      · exact .advance h rfl fun _ => closes_dropDb left
      · exact (closes_createDb left).forget
  · exact .lookAhead fun _ =>
      .ite (closes_dropTable left).forget (closes_createTable left).forget
  · exact (closes_insert left).forget
  · exact (closes_select left).forget
  · exact (closes_dhundo left).forget
  · next h =>
      rw [h]
      exact (closes_docInsert left).forget
  · exact (closes_docGet left).forget
  · exact (closes_docRemove left).forget
  · exact (closes_delete left).forget
  · exact (closes_update left).forget
  · next h => exact goes_drop h rfl
  · next h => exact goes_drop h rfl
  · next h =>
      exact .advance h rfl fun _ => .peek fun _ => .ite (closes_dropDb left) goes_fail
  · exact (closes_checkpoint left).forget
  · exact (closes_createIndex left).forget
  · next h => exact absurd (by rw [h]; decide) hopen
  · next h => exact absurd (by rw [h]; decide) hopen
  · next h => exact absurd (by rw [h]; decide) hopen
  · next h => exact absurd (by rw [h]; decide) hopen
  · next h => exact absurd (by rw [h]; decide) hopen
  · next h => exact absurd (by rw [h]; decide) hopen
  · exact (closes_alterTable left).forget
  · exact (closes_backup left).forget
  · exact (closes_restore left).forget
  · exact (closes_export left).forget
  · exact (closes_import left).forget
  · next h =>
      rw [h]
      exact (closes_find left).forget
  · next h =>
      rw [h]
      exact (closes_upsert left).forget
  · next h =>
      rw [h]
      exact (closes_aggregate left).forget
  · next h =>
      refine goes_text.bind fun _ => .ite ?_ goes_fail
      exact .advance h rfl fun _ => .peek fun _ => .ite (closes_createIndex left) goes_fail
  · exact goes_text.bind fun _ => goes_fail

end From

/-- The parser leaves off where the statement ends. -/
theorem statement_iff {ctx after : ParserContext} {node : ASTNode} {t : Token} {rest : List Token}
    (hctx : Standing ts ctx) (hrest : ctx.rest = t :: rest)
    (hok : parseFrom t ctx = .ok node after) (behind : List Token) :
    Statement t.type ctx.rest behind ↔ behind = after.rest := by
  by_cases hopen : t.type ∈ openTypes
  · unfold parseFrom at hok
    simp only [openTypes, List.mem_cons, List.not_mem_nil, or_false] at hopen
    rcases hopen with h | h | h | h | h | h | h <;> rw [h] at hok ⊢
    · exact (follows_useDb ctx hctx).ends_iff hok
    · exact (follows_begin ctx hctx).ends_iff hok
    · exact (follows_begin ctx hctx).ends_iff hok
    · exact (follows_commit ctx hctx).ends_iff hok
    · exact (follows_rollback ctx hctx).ends_iff hok
    · exact (follows_savepoint ctx hctx).ends_iff hok
    · exact (follows_releaseSavepoint ctx hctx).ends_iff hok
  · rw [statement_of_notMem hopen]
    have hend := (goes_from hopen ctx node after hctx ⟨rfl, by rw [hrest]; rfl⟩ hok).2
    rw [Closed, hend]
    exact eq_comm

/-! ## Queries -/

/-- An accepted query is read as a whole when each byte outside its literals has a place and its
statement reaches to the end. -/
theorem read_as_whole_iff {input : CStr} {node : ASTNode} {ctx : ParserContext}
    (hparse : parse (tokenize input) = .ok node ctx) :
    BytesBelong input ∧ AtEnd ctx.rest ↔ Spelled input ∧ OneStatement (tokenize input) := by
  have hctx := standing_tokenStream input _ (Nat.lt_succ_self (tokenize input).length)
  obtain ⟨t, rest, hrest⟩ := hctx.exists_rest
  have hok := (bind_of_ok (currentToken_of_rest hrest)).symm.trans hparse
  have hstatement := statement_iff hctx hrest hok
  have htokens : tokenize input = t :: rest := hrest
  rw [bytesBelong_iff]
  refine and_congr_right fun _ => ?_
  constructor
  · intro hend
    exact ⟨t, by rw [htokens]; rfl, ctx.rest, (hstatement _).mpr rfl, hend⟩
  · rintro ⟨t', ht', behind, hread, hend⟩
    rw [htokens] at ht'
    cases ht'
    exact (hstatement behind).mp hread ▸ hend

/-- A COMMIT with its semicolon is read as a whole. -/
theorem commit_read_as_whole :
    ∃ node ctx, parse (tokenize (CStr.lit "COMMIT;")) = .ok node ctx ∧
      BytesBelong (CStr.lit "COMMIT;") ∧ AtEnd ctx.rest := by
  have htokens : tokenize (CStr.lit "COMMIT;") =
      [⟨.kwCommit, none, 1⟩, ⟨.semicolon, some (CStr.lit ";"), 1⟩, ⟨.eof, none, 1⟩] := by
    decide +kernel
  have hparse : parse (tokenize (CStr.lit "COMMIT;")) =
      .ok .commit { tokens := tokenize (CStr.lit "COMMIT;"), current := 2, rounds := 4 } := by
    rw [htokens]
    rfl
  refine ⟨_, _, hparse, (read_as_whole_iff hparse).mpr ⟨rfl, ?_⟩⟩
  rw [htokens]
  refine ⟨_, rfl, [⟨.eof, none, 1⟩], ?_, .inl rfl⟩
  simp [Statement, Commit, seq_cons]

/-- The sign of the number is dropped, and the rows with the other one are deleted. -/
theorem minus_is_dropped :
    ¬ ∀ (input : CStr) (node : ASTNode) (ctx : ParserContext),
      parse (tokenize input) = .ok node ctx → BytesBelong input ∧ AtEnd ctx.rest := by
  intro hall
  have hparse : (match parse (tokenize (CStr.lit "NIKALO t JAHAN a = -5;")) with
      | .ok _ _ => true
      | _ => false) = true := by decide +kernel
  split at hparse
  · next node ctx hok => exact absurd (hall _ node ctx hok).1 (by decide +kernel)
  · cases hparse

end Sql
end InventixDB
