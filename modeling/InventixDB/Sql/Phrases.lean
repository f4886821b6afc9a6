import InventixDB.Lib.Phrases
import InventixDB.Sql.Termination

/-!
# Phrases — what a parser reads, and where it crashes

A parser follows a phrase when it goes on behind exactly what the phrase describes.  It crashes at a
set of token lists when those are the ones on which it ends the process, reads a text that is not
there or writes past a buffer.  Both leave aside a parser whose rounds are used up.
-/

namespace InventixDB
namespace Sql

open Storage
open Lib
open Lib.Phrase
open InventixDB.Sql.Parser

variable {α β : Type} {ts : TokenStream}

/-! ## Where a parser stands -/

/-- The token is of one of the types. -/
def OfType (types : List LexerTokenType) (t : Token) : Prop :=
  t.type ∈ types

@[simp]
theorem ofType_iff {types : List LexerTokenType} {t : Token} :
    OfType types t ↔ t.type ∈ types :=
  Iff.rfl

/-- One token of the type. -/
abbrev Tok (type : LexerTokenType) : Phrase Token :=
  One (OfType [type])

/-- Such a token, if there is one. -/
abbrev Maybe (types : List LexerTokenType) : Phrase Token :=
  Optional (OfType types) (seq [])

theorem either_ofType {type : LexerTokenType} {types : List LexerTokenType} {R S : Phrase Token}
    {before behind : List Token} :
    Either (OfType [type]) R (Either (OfType types) R S) before behind ↔
      Either (OfType (type :: types)) R S before behind := by
  have hcons : OfType (type :: types) = fun t => OfType [type] t ∨ OfType types t := by
    funext t
    simp
  rw [either_either, hcons]

/-- What starts with a token of one type does not start with one of another. -/
theorem not_starts_of_one {types others : List LexerTokenType} {before behind : List Token}
    (hread : One (OfType types) before behind) (hdisjoint : ∀ type ∈ types, type ∉ others) :
    ¬ Starts (OfType others) before := by
  cases hread with
  | read htoken =>
      rw [starts_cons]
      exact hdisjoint _ htoken

/-- The parser has a token to look at. -/
structure Standing (ts : TokenStream) (ctx : ParserContext) : Prop extends Reads ts ctx where
  ahead : ctx.rest ≠ []

section Standing

variable {ctx : ParserContext} {t : Token} {rest : List Token}

/-- Behind a token that is not the end of the input there is another one. -/
theorem Standing.next (hctx : Standing ts ctx) (hrest : ctx.rest = t :: rest)
    (htype : t.type ≠ .eof) : Standing ts ctx.next where
  toReads := ⟨hctx.toWithin.next hrest, hctx.rounds⟩
  ahead := by
    rw [rest_next hrest]
    rintro rfl
    obtain ⟨last, hlast, heof⟩ := ts.last
    have hend : ctx.rest.getLast? = some t := by
      rw [hrest]
      rfl
    rw [ParserContext.rest, List.getLast?_drop, hctx.tokens, hlast] at hend
    split at hend
    · cases hend
    · cases hend
      exact htype heof

theorem Standing.exists_rest (hctx : Standing ts ctx) : ∃ t rest, ctx.rest = t :: rest :=
  List.exists_cons_of_ne_nil hctx.ahead

theorem Standing.mem (hctx : Standing ts ctx) (hrest : ctx.rest = t :: rest) : t ∈ ts.tokens := by
  rw [← hctx.tokens]
  exact List.mem_of_mem_drop (hrest ▸ List.mem_cons_self)

theorem consume_eq (type : LexerTokenType) (hrest : ctx.rest = t :: rest) :
    consume type ctx = if t.type = type then .ok t ctx.next else .null := by
  unfold consume
  rw [bind_of_ok (currentToken_of_rest hrest)]
  split
  · rw [bind_of_ok (advance_of_rest hrest)]
    rfl
  · rfl

theorem tryMatch_eq (type : LexerTokenType) (hrest : ctx.rest = t :: rest) :
    tryMatch type ctx = if t.type = type then .ok true ctx.next else .ok false ctx := by
  unfold tryMatch
  rw [bind_of_ok (currentType_of_rest hrest)]
  split
  · rw [bind_of_ok (advance_of_rest hrest)]
    rfl
  · rfl

end Standing

theorem ite_bind (c : Prop) [Decidable c] (p q : Parser α) (f : α → Parser β) :
    (if c then p else q) >>= f = if c then p >>= f else q >>= f := by
  split <;> rfl

/-- One round of `commaList`. -/
def itemsRound (item : Parser α) (items : List α) : Parser (List α × Bool) := do
  let a ← item
  return (items ++ [a], ← tryMatch .comma)

/-- One round of `parseLogical`. -/
def operatorRound (type : LexerTokenType) (op : CStr) (operand : Parser Expr) (left : Expr) :
    Parser (Expr × Bool) := do
  if (← currentType) = type then
    let _ ← consume type
    let right ← operand
    return (.binary left op right, true)
  else
    return (left, false)

theorem itemsRounds_eq (item : Parser α) (fuel : Nat) (items : List α) :
    iterate (itemsRound item) (fuel + 1) items = (do
      let a ← item
      if ← tryMatch .comma then iterate (itemsRound item) fuel (items ++ [a])
      else return items ++ [a]) := by
  simp only [iterate, itemsRound, bind_assoc, pure_bind]

theorem operatorRounds_eq (type : LexerTokenType) (op : CStr) (operand : Parser Expr) (fuel : Nat)
    (left : Expr) :
    iterate (operatorRound type op operand) (fuel + 1) left = (do
      if (← currentType) = type then
        let _ ← consume type
        let right ← operand
        iterate (operatorRound type op operand) fuel (.binary left op right)
      else
        return left) := by
  simp only [iterate, operatorRound, bind_assoc, pure_bind, ite_bind, if_true, Bool.false_eq_true,
    if_false]

/-! ## Parsers that follow a phrase -/

/-- Where the parser goes on, it is behind the phrase; where the phrase is, it goes on, as long as
its rounds last. -/
structure FollowsAt (ts : TokenStream) (p : Parser α) (R : Phrase Token) (ctx : ParserContext) :
    Prop where
  ok : ∀ {a after}, p ctx = .ok a after → R ctx.rest after.rest ∧ Standing ts after
  reads : ∀ {behind}, R ctx.rest behind →
    p ctx = .running ∨ ∃ a after, p ctx = .ok a after ∧ after.rest = behind

def Follows (ts : TokenStream) (p : Parser α) (R : Phrase Token) : Prop :=
  ∀ ctx, Standing ts ctx → FollowsAt ts p R ctx

section Follows

variable {p : Parser α} {q : Parser β} {f : α → Parser β} {R S : Phrase Token}
  {Rs : List (Phrase Token)} {ctx ctx' : ParserContext}

/-- Only what the parser does from here on matters. -/
theorem FollowsAt.of_eq {q : Parser α} (hq : FollowsAt ts q S ctx') (heq : p ctx = q ctx')
    (hiff : ∀ behind, R ctx.rest behind ↔ S ctx'.rest behind) : FollowsAt ts p R ctx where
  ok hok := by
    obtain ⟨hS, hafter⟩ := hq.ok (heq ▸ hok)
    exact ⟨(hiff _).mpr hS, hafter⟩
  reads hread := heq ▸ hq.reads ((hiff _).mp hread)

/-- The parser does not go on where the phrase is not. -/
theorem FollowsAt.of_not_ok (hnever : ∀ a after, p ctx ≠ .ok a after)
    (hnot : ∀ behind, ¬ R ctx.rest behind) : FollowsAt ts p R ctx where
  ok hok := absurd hok (hnever _ _)
  reads hread := absurd hread (hnot _)

theorem Follows.congr (hp : Follows ts p R)
    (hiff : ∀ before behind, S before behind ↔ R before behind) : Follows ts p S :=
  fun ctx hctx => (hp ctx hctx).of_eq rfl fun behind => hiff ctx.rest behind

theorem follows_pure (a : α) : Follows ts (pure a) (seq []) := by
  intro ctx hctx
  constructor
  · intro _ _ hok
    cases hok
    exact ⟨rfl, hctx⟩
  · intro behind hread
    exact .inr ⟨a, ctx, rfl, hread⟩

theorem Follows.bind (hp : Follows ts p R) (hf : ∀ a, Follows ts (f a) (seq Rs)) :
    Follows ts (p >>= f) (seq (R :: Rs)) := by
  intro ctx hctx
  constructor
  · intro b after hok
    obtain ⟨a, mid, ha, hrest⟩ := ok_of_bind hok
    obtain ⟨hR, hmid⟩ := (hp ctx hctx).ok ha
    obtain ⟨hRs, hafter⟩ := (hf a mid hmid).ok hrest
    exact ⟨⟨mid.rest, hR, hRs⟩, hafter⟩
  · rintro behind ⟨_, hR, hRs⟩
    rcases (hp ctx hctx).reads hR with hrun | ⟨a, mid, ha, rfl⟩
    · exact .inl (bind_of_running hrun)
    · rw [bind_of_ok ha]
      exact (hf a mid ((hp ctx hctx).ok ha).2).reads hRs

theorem Follows.single (hp : Follows ts p R) : Follows ts p (seq [R]) :=
  hp.congr fun _ _ => seq_singleton

/-- The last phrase of a parser that goes on with a value. -/
theorem Follows.map {g : α → β} (hp : Follows ts p R) :
    Follows ts (p >>= fun a => pure (g a)) R :=
  (hp.bind fun a => follows_pure (g a)).congr fun _ _ => seq_singleton.symm

/-! ### One token -/

theorem follows_consume (type : LexerTokenType) (htype : type ≠ .eof) :
    Follows ts (consume type) (Tok type) := by
  intro ctx hctx
  obtain ⟨t, rest, hrest⟩ := hctx.exists_rest
  have heq := consume_eq type hrest
  by_cases ht : t.type = type
  · rw [if_pos ht] at heq
    refine (follows_pure t ctx.next (hctx.next hrest (ht ▸ htype))).of_eq heq fun behind => ?_
    simp [hrest, rest_next hrest, ht]
  · rw [if_neg ht] at heq
    refine .of_not_ok (fun _ _ => by rw [heq]; exact nofun) fun behind => ?_
    simp [hrest, ht]

/-- A token that has a text. -/
theorem follows_consumeText (type : LexerTokenType) (htype : type ∈ textTypes) :
    Follows ts (consumeText type) (Tok type) := by
  have hne : type ≠ .eof := by
    rintro rfl
    exact absurd htype (by decide)
  intro ctx hctx
  obtain ⟨t, rest, hrest⟩ := hctx.exists_rest
  have heq := consume_eq type hrest
  by_cases ht : t.type = type
  · rw [if_pos ht] at heq
    obtain ⟨v, hv⟩ := text_eq (hctx.mem hrest) (ht ▸ htype)
    have htext : consumeText type ctx = (pure v : Parser CStr) ctx.next := by
      unfold consumeText
      rw [bind_of_ok heq, hv]
    refine (follows_pure v ctx.next (hctx.next hrest (ht ▸ hne))).of_eq htext fun behind => ?_
    simp [hrest, rest_next hrest, ht]
  · rw [if_neg ht] at heq
    have hnull : consumeText type ctx = .null := bind_of_null heq
    refine .of_not_ok (fun _ _ => by rw [hnull]; exact nofun) fun behind => ?_
    simp [hrest, ht]

/-! ### Decisions -/

/-- The parser goes on one way behind a token of the type, and another way where there is none. -/
theorem follows_tryMatch {type : LexerTokenType} {g : Bool → Parser β} (htype : type ≠ .eof)
    (htrue : Follows ts (g true) R) (hfalse : Follows ts (g false) S) :
    Follows ts (tryMatch type >>= g) (Either (OfType [type]) R S) := by
  intro ctx hctx
  obtain ⟨t, rest, hrest⟩ := hctx.exists_rest
  have heq := tryMatch_eq type hrest
  by_cases ht : t.type = type
  · rw [if_pos ht] at heq
    refine (htrue ctx.next (hctx.next hrest (ht ▸ htype))).of_eq (bind_of_ok heq) fun behind => ?_
    simp [hrest, rest_next hrest, ht]
  · rw [if_neg ht] at heq
    refine (hfalse ctx hctx).of_eq (bind_of_ok heq) fun behind => ?_
    simp [hrest, ht]

theorem follows_skip (type : LexerTokenType) (htype : type ≠ .eof) :
    Follows ts (skip type) (Maybe [type]) :=
  follows_tryMatch htype (follows_pure ()) (follows_pure ())

/-- A parser that asks for the type of the token it is at. -/
theorem Follows.of_currentType {g : LexerTokenType → Parser α}
    (hg : ∀ ctx t rest, Standing ts ctx → ctx.rest = t :: rest → FollowsAt ts (g t.type) R ctx) :
    Follows ts (currentType >>= g) R := by
  intro ctx hctx
  obtain ⟨t, rest, hrest⟩ := hctx.exists_rest
  exact (hg ctx t rest hctx hrest).of_eq (bind_of_ok (currentType_of_rest hrest)) fun _ => Iff.rfl

/-- The parser consumes the token it has looked at. -/
theorem follows_peek {type : LexerTokenType} {q : Parser β} {g : Token → Parser β}
    (htype : type ≠ .eof) (htrue : ∀ t, Follows ts (g t) R) (hfalse : Follows ts q S) :
    Follows ts (currentType >>= fun t => if t = type then consume type >>= g else q)
      (Either (OfType [type]) R S) := by
  refine .of_currentType fun ctx t rest hctx hrest => ?_
  have heq := consume_eq type hrest
  by_cases ht : t.type = type
  · rw [if_pos ht] at heq ⊢
    refine (htrue t ctx.next (hctx.next hrest (ht ▸ htype))).of_eq (bind_of_ok heq) fun behind => ?_
    simp [hrest, rest_next hrest, ht]
  · rw [if_neg ht]
    refine (hfalse ctx hctx).of_eq rfl fun behind => ?_
    simp [hrest, ht]

/-! ### Lists -/

theorem follows_running : Follows ts (running : Parser α) R := by
  intro ctx hctx
  constructor
  · intro _ _ hok
    cases hok
  · exact fun _ => .inl rfl

theorem separated_seq {type : LexerTokenType} {before behind : List Token} :
    Separated (OfType [type]) R before behind ↔
      seq [R, Optional (OfType [type]) (Separated (OfType [type]) R)] before behind := by
  simp only [separated_iff, seq_cons, seq_nil, exists_eq_right]

/-- The loop of a list, with a separator behind each item. -/
theorem follows_commaList {item : Parser α} (hitem : Follows ts item R) :
    Follows ts (commaList item) (Separated (OfType [.comma]) R) := by
  have hrounds : ∀ fuel items, Follows ts (iterate (itemsRound item) fuel items)
      (Separated (OfType [.comma]) R) := by
    intro fuel
    induction fuel with
    | zero => exact fun _ => follows_running
    | succ fuel ih =>
        intro items
        -- one round, and the rounds behind its comma
        have hround : Follows ts (item >>= fun a => tryMatch .comma >>= fun more =>
            if more then iterate (itemsRound item) fuel (items ++ [a]) else pure (items ++ [a]))
            (seq [R, Optional (OfType [.comma]) (Separated (OfType [.comma]) R)]) :=
          hitem.bind fun a =>
            Follows.single (follows_tryMatch (by decide) (ih _) (follows_pure _))
        rw [itemsRounds_eq]
        exact hround.congr fun _ _ => separated_seq
  intro ctx hctx
  exact (hrounds ctx.rounds [] ctx hctx).of_eq rfl fun _ => Iff.rfl

/-- The loop of a chain of operators, with an operator before each operand but the first. -/
theorem follows_logical {type : LexerTokenType} (htype : type ≠ .eof) (op : CStr)
    {operand : Parser Expr} (hoperand : Follows ts operand R) :
    Follows ts (parseLogical type op operand) (Separated (OfType [type]) R) := by
  have hrounds : ∀ fuel left, Follows ts (iterate (operatorRound type op operand) fuel left)
      (Optional (OfType [type]) (Separated (OfType [type]) R)) := by
    intro fuel
    induction fuel with
    | zero => exact fun _ => follows_running
    | succ fuel ih =>
        intro left
        have hrest : Follows ts (operand >>= fun right =>
            iterate (operatorRound type op operand) fuel (.binary left op right))
            (Separated (OfType [type]) R) :=
          (hoperand.bind fun right => (ih _).single).congr fun _ _ => separated_seq
        rw [operatorRounds_eq]
        exact follows_peek htype (fun _ => hrest) (follows_pure left)
  unfold parseLogical
  refine (hoperand.bind fun left => Follows.single fun ctx hctx => ?_).congr
    fun _ _ => separated_seq
  exact (hrounds ctx.rounds left ctx hctx).of_eq rfl fun _ => Iff.rfl

end Follows

/-! ## Parsers that crash -/

/-- The process has ended, or the behaviour is undefined. -/
def Result.Crashed : Result α → Prop
  | .ok _ _ => False
  | .null => False
  | .exit => True
  | .undefined => True
  | .running => False

/-- The parser crashes at `ctx` if and only if `B` holds of what is left of the tokens there. -/
def CrashesAt (p : Parser α) (B : Breaks Token) (ctx : ParserContext) : Prop :=
  p ctx = .running ∨ ((p ctx).Crashed ↔ B ctx.rest)

def Crashes (ts : TokenStream) (p : Parser α) (B : Breaks Token) : Prop :=
  ∀ ctx, Standing ts ctx → CrashesAt p B ctx

/-- The parser never crashes. -/
abbrev Safe (ts : TokenStream) (p : Parser α) : Prop :=
  ∀ room, Ends true ts room p

section Crashes

variable {p : Parser α} {f : α → Parser β} {R S : Phrase Token} {Rs : List (Phrase Token)}
  {B B' : Breaks Token} {ctx ctx' : ParserContext}

theorem CrashesAt.of_eq {q : Parser α} (hq : CrashesAt q B' ctx') (heq : p ctx = q ctx')
    (hiff : B ctx.rest ↔ B' ctx'.rest) : CrashesAt p B ctx := by
  unfold CrashesAt
  rw [heq, hiff]
  exact hq

theorem Crashes.congr (hp : Crashes ts p B) (hiff : ∀ before, B' before ↔ B before) :
    Crashes ts p B' :=
  fun ctx hctx => (hp ctx hctx).of_eq rfl (hiff ctx.rest)

theorem Safe.not_crashed (hp : Safe ts p) (hctx : Reads ts ctx) : ¬ (p ctx).Crashed := by
  have hroom := Nat.lt_add_left ctx.current (Nat.lt_succ_self ts.tokens.length)
  have hgood := (hp (ts.tokens.length + 1)).good ctx hctx hroom
  cases hresult : p ctx with
  | ok a after => exact id
  | null => exact id
  | exit =>
      rw [hresult] at hgood
      cases hgood
  | undefined =>
      rw [hresult] at hgood
      cases hgood
  | running => exact id

theorem Safe.crashes (hp : Safe ts p) : Crashes ts p fun _ => False :=
  fun _ hctx => .inr (iff_false_intro (hp.not_crashed hctx.toReads))

/-- What the second parser does decides, where the first one goes on. -/
theorem Crashes.bind (hcrash : Crashes ts p B) (hp : Follows ts p R)
    (hf : ∀ a, Crashes ts (f a) B') :
    Crashes ts (p >>= f) fun before => B before ∨ Behind [R] B' before := by
  intro ctx hctx
  have hfirst := hcrash ctx hctx
  have hfollows := hp ctx hctx
  unfold CrashesAt at hfirst ⊢
  change Parser.bind p f ctx = _ ∨ ((Parser.bind p f ctx).Crashed ↔ _)
  unfold Parser.bind
  cases hresult : p ctx with
  | ok a after =>
      rw [hresult] at hfirst
      obtain ⟨hR, hafter⟩ := hfollows.ok hresult
      have hB : ¬ B ctx.rest := fun hbreaks => (hfirst.resolve_left nofun).mpr hbreaks
      refine (hf a after hafter).imp id fun hiff => hiff.trans ⟨fun hbreaks => ?_, ?_⟩
      · exact .inr ⟨seq_singleton.mpr hR, hbreaks⟩
      · rintro (hbreaks | ⟨hread, hbreaks⟩)
        · exact absurd hbreaks hB
        · -- the phrase has one end only, and it is where the parser went on
          rcases hfollows.reads (seq_singleton.mp hread) with hrun | ⟨_, _, hok, rfl⟩
          · rw [hresult] at hrun
            cases hrun
          · rw [hresult] at hok
            cases hok
            exact hbreaks
  | running => exact .inl rfl
  | exit =>
      rw [hresult] at hfirst
      exact .inr ⟨fun _ => .inl ((hfirst.resolve_left nofun).mp trivial), fun _ => trivial⟩
  | undefined =>
      rw [hresult] at hfirst
      exact .inr ⟨fun _ => .inl ((hfirst.resolve_left nofun).mp trivial), fun _ => trivial⟩
  | null =>
      rw [hresult] at hfirst
      refine .inr ⟨fun hcrashed => absurd hcrashed id, ?_⟩
      rintro (hbreaks | ⟨hread, _⟩)
      · exact (hfirst.resolve_left nofun).mpr hbreaks
      · rcases hfollows.reads (seq_singleton.mp hread) with hrun | ⟨_, _, hok, _⟩
        · rw [hresult] at hrun
          cases hrun
        · rw [hresult] at hok
          cases hok

/-- The parser behind a phrase that is safe to read. -/
theorem Crashes.behind (hp : Follows ts p R) (hsafe : Safe ts p)
    (hf : ∀ a, Crashes ts (f a) (Behind Rs B)) : Crashes ts (p >>= f) (Behind (R :: Rs) B) := by
  refine (hsafe.crashes.bind hp hf).congr fun before => ?_
  rw [behind_cons, false_or, behind_cons]
  simp only [behind_nil]

theorem Crashes.here (hp : Crashes ts p B) : Crashes ts p (Behind [] B) :=
  hp.congr fun _ => behind_nil

/-- Where the parser goes on, its rounds have not run out. -/
def Lands (ts : TokenStream) (p : Parser α) : Prop :=
  ∀ {ctx a after}, Standing ts ctx → p ctx = .ok a after → Reads ts after

theorem Follows.lands (hp : Follows ts p R) : Lands ts p :=
  fun hctx hok => ((hp _ hctx).ok hok).2.toReads

theorem lands_of_ends (hp : ∀ room, Ends false ts room p) : Lands ts p := by
  intro ctx a after hctx hok
  have hroom := Nat.lt_add_left ctx.current (Nat.lt_succ_self ts.tokens.length)
  have hgood := (hp (ts.tokens.length + 1)).good ctx hctx.toReads hroom
  rw [hok] at hgood
  exact hgood.1

/-- What follows the crash is safe. -/
theorem Crashes.before (hp : Crashes ts p B) (hlands : Lands ts p) (hf : ∀ a, Safe ts (f a)) :
    Crashes ts (p >>= f) B := by
  intro ctx hctx
  have hfirst := hp ctx hctx
  unfold CrashesAt at hfirst ⊢
  change Parser.bind p f ctx = _ ∨ ((Parser.bind p f ctx).Crashed ↔ _)
  unfold Parser.bind
  cases hresult : p ctx with
  | ok a after =>
      have hafter := hlands hctx hresult
      rw [hresult] at hfirst
      have hB : ¬ B ctx.rest := fun hbreaks => (hfirst.resolve_left nofun).mpr hbreaks
      exact .inr (iff_of_false ((hf a).not_crashed hafter) hB)
  | null =>
      rw [hresult] at hfirst
      exact .inr (hfirst.resolve_left nofun)
  | exit =>
      rw [hresult] at hfirst
      exact .inr (hfirst.resolve_left nofun)
  | undefined =>
      rw [hresult] at hfirst
      exact .inr (hfirst.resolve_left nofun)
  | running => exact .inl rfl

/-- A decision on the next token. -/
theorem crashes_tryMatch {type : LexerTokenType} {g : Bool → Parser β} (htype : type ≠ .eof)
    (htrue : Crashes ts (g true) B) (hfalse : Crashes ts (g false) B') :
    Crashes ts (tryMatch type >>= g) fun before =>
      Behind [Tok type] B before ∨ (¬ Starts (OfType [type]) before ∧ B' before) := by
  intro ctx hctx
  obtain ⟨t, rest, hrest⟩ := hctx.exists_rest
  have heq := tryMatch_eq type hrest
  by_cases ht : t.type = type
  · rw [if_pos ht] at heq
    refine (htrue ctx.next (hctx.next hrest (ht ▸ htype))).of_eq (bind_of_ok heq) ?_
    simp [hrest, rest_next hrest, behind_cons, ht]
  · rw [if_neg ht] at heq
    refine (hfalse ctx hctx).of_eq (bind_of_ok heq) ?_
    simp [hrest, behind_cons, ht]

/-- A parser that asks for the type of the token it is at. -/
theorem Crashes.of_currentType {g : LexerTokenType → Parser α}
    (hg : ∀ ctx t rest, Standing ts ctx → ctx.rest = t :: rest → CrashesAt (g t.type) B ctx) :
    Crashes ts (currentType >>= g) B := by
  intro ctx hctx
  obtain ⟨t, rest, hrest⟩ := hctx.exists_rest
  exact (hg ctx t rest hctx hrest).of_eq (bind_of_ok (currentType_of_rest hrest)) Iff.rfl

/-- The parser consumes the token it has looked at. -/
theorem crashes_peek {type : LexerTokenType} {q : Parser β} {g : Token → Parser β}
    (htype : type ≠ .eof) (htrue : ∀ t, Crashes ts (g t) B) (hfalse : Crashes ts q B') :
    Crashes ts (currentType >>= fun t => if t = type then consume type >>= g else q)
      fun before => Behind [Tok type] B before ∨ (¬ Starts (OfType [type]) before ∧ B' before) := by
  refine .of_currentType fun ctx t rest hctx hrest => ?_
  have heq := consume_eq type hrest
  by_cases ht : t.type = type
  · rw [if_pos ht] at heq ⊢
    refine (htrue t ctx.next (hctx.next hrest (ht ▸ htype))).of_eq (bind_of_ok heq) ?_
    simp [hrest, rest_next hrest, behind_cons, ht]
  · rw [if_neg ht]
    refine (hfalse ctx hctx).of_eq rfl ?_
    simp [hrest, behind_cons, ht]

theorem crashes_running : Crashes ts (running : Parser α) B :=
  fun _ _ => .inl rfl

/-- A chain of operators crashes in one of its operands. -/
theorem crashes_logical {type : LexerTokenType} (htype : type ≠ .eof) (op : CStr)
    {operand : Parser Expr} (hoperand : Follows ts operand R) (hcrash : Crashes ts operand B) :
    Crashes ts (parseLogical type op operand) (SeparatedBreaks (OfType [type]) R B) := by
  have hrounds : ∀ fuel left, Crashes ts (iterate (operatorRound type op operand) fuel left)
      (Behind [Tok type] (SeparatedBreaks (OfType [type]) R B)) := by
    intro fuel
    induction fuel with
    | zero => exact fun _ => crashes_running
    | succ fuel ih =>
        intro left
        have hrest : Crashes ts (operand >>= fun right =>
            iterate (operatorRound type op operand) fuel (.binary left op right))
            (SeparatedBreaks (OfType [type]) R B) := by
          refine (hcrash.bind hoperand fun right => ih _).congr fun before => ?_
          rw [separatedBreaks_iff, behind_cons]
          simp only [behind_nil]
        have hstop : Crashes ts (pure left : Parser Expr) fun _ => False :=
          Safe.crashes fun _ => inferInstance
        rw [operatorRounds_eq]
        refine (crashes_peek htype (fun _ => hrest) hstop).congr fun before => ?_
        rw [and_false, or_false]
  have hloop : ∀ left, Crashes ts (loop (operatorRound type op operand) left)
      (Behind [Tok type] (SeparatedBreaks (OfType [type]) R B)) :=
    fun left ctx hctx => (hrounds ctx.rounds left ctx hctx).of_eq rfl Iff.rfl
  refine (hcrash.bind hoperand hloop).congr fun before => ?_
  rw [separatedBreaks_iff, behind_cons]
  simp only [behind_nil]

end Crashes

end Sql
end InventixDB
