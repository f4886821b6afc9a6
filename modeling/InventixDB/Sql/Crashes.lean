import InventixDB.Sql.Conditions

/-!
# Crashes — the statements that bring the parser down

USE and ALTER TABLE copy the text of a keyword, a condition exits where something is missing, and
the texts between braces go to a buffer of their own.  No other statement can do more than fail, and
what starts none is reported with its text.
-/

namespace InventixDB
namespace Sql

open Storage
open Lib
open Lib.Phrase
open InventixDB.Sql.Parser
open Grammar

variable {α β : Type} {ts : TokenStream}

namespace Grammar

/-- `column = value` -/
def Assignment : Phrase Token :=
  seq [Tok .identifier, Tok .equals,
    One (OfType [.string, .intLiteral, .floatLiteral, .identifier])]

/-- The column types ALTER TABLE knows. -/
def columnTypes : List LexerTokenType :=
  [.kwInt, .kwFloat, .kwStringType, .kwTextType, .kwBoolType]

end Grammar

/-! ## Texts between braces -/

/-- The tokens a document insert copies, up to the first closing brace. -/
def flatBody (rest : List Token) : List Token :=
  rest.takeWhile fun t => t.type ≠ .rbrace ∧ t.type ≠ .eof

def behindFlatBody (rest : List Token) : List Token :=
  rest.dropWhile fun t => t.type ≠ .rbrace ∧ t.type ≠ .eof

/-- The texts fit the buffer as they are copied, and the closing brace fits it behind them. -/
def FlatBodyFits (size : Nat) (rest : List Token) : Prop :=
  (∀ t ∈ flatBody rest, t.value.isSome) ∧ textLength (flatBody rest) + 1 < size ∧
    (Starts (OfType [.rbrace]) (behindFlatBody rest) → textLength (flatBody rest) + 2 < size)

def Result.map (f : α → β) : Result α → Result β
  | .ok a after => .ok (f a) after
  | .null => .null
  | .exit => .exit
  | .undefined => .undefined
  | .running => .running

/-- A round at a token that is copied. -/
theorem flatBracesRound_of_rest {size : Nat} {buffer : CStr} {ctx : ParserContext} {t : Token}
    {rest : List Token} (hrest : ctx.rest = t :: rest)
    (hopen : t.type ≠ .rbrace ∧ t.type ≠ .eof) :
    flatBracesRound size buffer ctx =
      match t.value with
      | some v =>
          if buffer.length + (v.length + 1) < size then
            .ok (buffer ++ v ++ CStr.lit " ", true) ctx.next
          else .undefined
      | none => .undefined := by
  unfold flatBracesRound
  rw [bind_of_ok (currentToken_of_rest hrest), if_neg (by simp [hopen])]
  exact copied_of_rest hrest fun buffer => (buffer, true)

theorem bracesResult_flat {size : Nat} {fuel : Nat} {buffer : CStr} {ctx : ParserContext}
    (hctx : Within ts ctx) :
    BracesResult size ts (flatBody ctx.rest) (behindFlatBody ctx.rest) buffer
      ((iterate (flatBracesRound size) fuel buffer ctx).map fun buffer => (buffer, 0)) := by
  induction fuel generalizing buffer ctx with
  | zero => trivial
  | succ fuel ih =>
      cases hrest : ctx.rest with
      | nil =>
          obtain ⟨t, ht, heof⟩ := currentToken_of_nil hctx hrest
          have hround : flatBracesRound size buffer ctx = .ok (buffer, false) ctx := by
            unfold flatBracesRound
            rw [bind_of_ok ht, if_pos (.inr heof)]
            rfl
          rw [iterate_of_stop hround]
          exact ⟨by simp [flatBody], by simp [flatBody, textLength], hrest, hctx⟩
      | cons t rest =>
          by_cases hopen : t.type ≠ .rbrace ∧ t.type ≠ .eof
          · have hround := @flatBracesRound_of_rest size buffer ctx t rest hrest hopen
            have hbody : flatBody (t :: rest) = t :: flatBody rest := by simp [flatBody, hopen]
            have hbehind : behindFlatBody (t :: rest) = behindFlatBody rest := by
              simp [behindFlatBody, hopen]
            rw [hbody, hbehind]
            refine .copied (fun v hv => ?_) (fun hv => ?_)
              fun v => rest_next hrest ▸ ih (hctx.next hrest)
            · rw [hv] at hround
              dsimp only at hround
              split_ifs at hround ⊢
              · rw [iterate_of_more hround]
              · rw [iterate_of_undefined hround]
                rfl
            · rw [hv] at hround
              rw [iterate_of_undefined hround]
              rfl
          · have hstop : t.type = .rbrace ∨ t.type = .eof := by
              by_contra hne
              exact hopen (not_or.mp hne)
            have hround : flatBracesRound size buffer ctx = .ok (buffer, false) ctx := by
              unfold flatBracesRound
              rw [bind_of_ok (currentToken_of_rest hrest), if_pos hstop]
              rfl
            rw [iterate_of_stop hround]
            simp only [flatBody, behindFlatBody, List.takeWhile_cons, List.dropWhile_cons, hopen,
              decide_false, Bool.false_eq_true, if_false]
            exact ⟨by simp, by simp [textLength], hrest, hctx⟩

theorem crashes_braces (size : Nat) :
    Crashes ts (parseBraces size)
      (Behind [Tok .lbrace] fun body => ¬ BodyFits size (splitBraces 1 body).1) := by
  intro ctx hctx
  obtain ⟨t, rest, hrest⟩ := hctx.exists_rest
  by_cases ht : t.type = .lbrace
  · have hend := parseBraces_end size hctx.toWithin hrest ht
    unfold CrashesAt
    cases hresult : parseBraces size ctx with
    | ok v after =>
        rw [hresult] at hend
        cases hend with
        | ok _ _ hbody _ _ =>
            refine .inr (iff_of_false id ?_)
            simp [hrest, behind_cons, ht, hbody]
    | undefined =>
        rw [hresult] at hend
        cases hend with
        | undefined hbody =>
            refine .inr (iff_of_true trivial ?_)
            simp [hrest, behind_cons, ht, hbody]
    | running => exact .inl rfl
    | null =>
        rw [hresult] at hend
        cases hend
    | exit =>
        rw [hresult] at hend
        cases hend
  · have hnull : parseBraces size ctx = .null := by
      have hconsume := consume_eq .lbrace hrest
      rw [if_neg ht] at hconsume
      exact bind_of_null hconsume
    refine .inr (iff_of_false (by rw [hnull]; exact id) ?_)
    simp [hrest, behind_cons, ht]

/-- Anywhere in the stream, a token is there or the parser fails. -/
theorem consume_within {type : LexerTokenType} {ctx : ParserContext} (hctx : Within ts ctx)
    (htype : type ≠ .eof) :
    (∃ t, Starts (OfType [type]) ctx.rest ∧ consume type ctx = .ok t ctx.next) ∨
      (¬ Starts (OfType [type]) ctx.rest ∧ consume type ctx = .null) := by
  cases hrest : ctx.rest with
  | nil =>
      obtain ⟨t, ht, heof⟩ := currentToken_of_nil hctx hrest
      refine .inr ⟨not_starts_nil, ?_⟩
      unfold consume
      rw [bind_of_ok ht, if_neg (by rw [heof]; exact htype.symm)]
      rfl
  | cons t rest =>
      have hconsume := consume_eq type hrest
      by_cases ht : t.type = type
      · rw [if_pos ht] at hconsume
        exact .inl ⟨t, starts_cons.mpr (by simp [ht]), hconsume⟩
      · rw [if_neg ht] at hconsume
        exact .inr ⟨by simp [ht], hconsume⟩

theorem length_flat_lt {size fuel : Nat} {buffer v : CStr} {ctx after : ParserContext}
    (hok : iterate (flatBracesRound size) fuel buffer ctx = .ok v after)
    (hsize : buffer.length < size) : v.length < size := by
  induction fuel generalizing buffer ctx with
  | zero => cases hok
  | succ fuel ih =>
      obtain ⟨⟨b, more⟩, ctx₁, hround, hrest⟩ := ok_of_bind hok
      have hb : b.length < size := by
        obtain ⟨t, ctx₂, _, hround⟩ := ok_of_bind hround
        split at hround
        · cases hround
          exact hsize
        · obtain ⟨_, _, _, hround⟩ := ok_of_bind hround
          obtain ⟨_, _, _, hround⟩ := ok_of_bind hround
          obtain ⟨_, _, hblank, hround⟩ := ok_of_bind hround
          obtain ⟨rfl, hfits, _⟩ := strcat_ok hblank
          obtain ⟨_, _, _, hround⟩ := ok_of_bind hround
          cases hround
          exact hfits
      cases more with
      | true => exact ih hrest hb
      | false =>
          cases hrest
          exact hb

/-- What the body of a document insert comes to, behind its first brace. -/
theorem crashesAt_flatBody {size : Nat} {ctx : ParserContext} (hctx : Within ts ctx)
    (hsize : 1 < size) :
    CrashesAt (do
      let buffer ← loop (flatBracesRound size) (CStr.lit "\x7b")
      let _ ← consume .rbrace
      strcat size buffer (CStr.lit "\x7d")) (fun body => ¬ FlatBodyFits size body) ctx := by
  have hopen : (CStr.lit "\x7b").length = 1 := by decide
  have hclose : (CStr.lit "\x7d").length = 1 := by decide
  have hloop := @bracesResult_flat ts size ctx.rounds (CStr.lit "\x7b") ctx hctx
  have heq : loop (flatBracesRound size) (CStr.lit "\x7b") ctx =
      iterate (flatBracesRound size) ctx.rounds (CStr.lit "\x7b") ctx := rfl
  unfold CrashesAt
  cases hresult : iterate (flatBracesRound size) ctx.rounds (CStr.lit "\x7b") ctx with
  | ok buffer after =>
      rw [hresult] at hloop
      obtain ⟨htexts, hlen, hbehind, hafter⟩ := hloop
      dsimp only at hlen
      rw [hopen] at hlen
      rw [bind_of_ok (heq.trans hresult)]
      have hroom := length_flat_lt hresult (by rw [hopen]; exact hsize)
      rw [hlen] at hroom
      rcases @consume_within ts .rbrace after hafter (by decide) with
        ⟨t, hstarts, hconsume⟩ | ⟨hnot, hconsume⟩
      · rw [bind_of_ok hconsume, strcat]
        rw [hbehind] at hstarts
        split
        · next hfits =>
            rw [length_append, hlen, hclose] at hfits
            exact .inr (iff_of_false id (not_not_intro ⟨htexts, by omega, fun _ => by omega⟩))
        · next hfits =>
            rw [length_append, hlen, hclose] at hfits
            refine .inr (iff_of_true trivial fun hbody => ?_)
            have hlast := hbody.2.2 hstarts
            omega
      · rw [hbehind] at hnot
        rw [bind_of_null hconsume]
        exact .inr (iff_of_false id
          (not_not_intro ⟨htexts, by omega, fun hstarts => absurd hstarts hnot⟩))
  | undefined =>
      rw [hresult] at hloop
      rw [bind_of_undefined (heq.trans hresult)]
      refine .inr (iff_of_true trivial fun hfits => hloop ⟨hfits.1, ?_⟩)
      have hlen := hfits.2.1
      omega
  | running =>
      rw [bind_of_running (heq.trans hresult)]
      exact .inl rfl
  | null =>
      rw [hresult] at hloop
      exact absurd hloop id
  | exit =>
      rw [hresult] at hloop
      exact absurd hloop id

theorem crashes_flatBraces {size : Nat} (hsize : 1 < size) :
    Crashes ts (parseFlatBraces size)
      (Behind [Tok .lbrace] fun body => ¬ FlatBodyFits size body) := by
  rw [parseFlatBraces_eq]
  refine .behind (follows_consume .lbrace (by decide)) (fun _ => inferInstance) fun _ => ?_
  exact Crashes.here fun ctx hctx => crashesAt_flatBody hctx.toWithin hsize

/-! ## Stages -/

/-- Behind whole stages and commas stands a stage that does not fit its buffer. -/
def StagesBreak (rest : List Token) : Prop :=
  ∃ t behind, StagesReach rest (t :: behind) ∧ t.type = .lbrace ∧
    ¬ BodyFits 1024 (splitBraces 1 behind).1

theorem StagesBreak.comma {t : Token} {rest : List Token} (htype : t.type = .comma)
    (hbreak : StagesBreak rest) : StagesBreak (t :: rest) := by
  obtain ⟨t', behind, hreach, hbody⟩ := hbreak
  exact ⟨t', behind, .comma htype hreach, hbody⟩

theorem StagesBreak.stage {t : Token} {rest : List Token} (htype : t.type = .lbrace)
    (hbody : BodyFits 1024 (splitBraces 1 rest).1) (hbreak : StagesBreak (splitBraces 1 rest).2) :
    StagesBreak (t :: rest) := by
  obtain ⟨t', behind, hreach, hnot⟩ := hbreak
  exact ⟨t', behind, .stage htype hbody hreach, hnot⟩

/-- The loop crashes, or its rounds run out. -/
theorem stagesEnd_of_break {rest : List Token} (hbreak : StagesBreak rest) :
    StagesEnd (fun r => r = .running ∨ r.Crashed) ts rest := by
  obtain ⟨t, behind, hreach, htype, hbody⟩ := hbreak
  refine (@StagesEnd.of_reach ts (fun r => r = .running ∨ r.Crashed) rest _ (.inl rfl) hreach
    ?_ ?_).1
  · intro ctx fuel stages hctx hrest
    cases fuel with
    | zero => exact .inl rfl
    | succ fuel =>
        have hround := @stagesRound_of_rest stages ctx t behind hrest (by simp [htype])
          (by simp [htype])
        rw [if_pos htype] at hround
        have hbraces := parseBraces_end 1024 hctx hrest htype
        cases hresult : parseBraces 1024 ctx with
        | ok v after =>
            rw [hresult] at hbraces
            cases hbraces with
            | ok _ _ hfits _ _ => exact absurd hfits hbody
        | undefined =>
            rw [bind_of_undefined hresult] at hround
            rw [iterate_of_undefined hround]
            exact .inr trivial
        | running =>
            rw [bind_of_running hresult] at hround
            exact .inl (bind_of_running hround)
        | null =>
            rw [hresult] at hbraces
            cases hbraces
        | exit =>
            rw [hresult] at hbraces
            cases hbraces
  · rintro c tail heq hc
    cases heq
    rw [htype] at hc
    cases hc

/-- Where the loop crashes there is such a stage. -/
theorem stagesBreak_of_crashed {fuel : Nat} {stages : List CStr} {ctx : ParserContext}
    (hctx : Within ts ctx) (hcrashed : (iterate stagesRound fuel stages ctx).Crashed) :
    StagesBreak ctx.rest := by
  induction fuel generalizing stages ctx with
  | zero => exact absurd hcrashed id
  | succ fuel ih =>
      -- a comma that has been skipped belongs to what is left
      have hskipped : ∀ {stages after}, Within ts after →
          ((skip .comma >>= fun _ => iterate stagesRound fuel stages) after).Crashed →
          StagesBreak after.rest := by
        intro stages after hafter hcrashed
        rcases skip_comma hafter with ⟨c, tail, hc, hcomma, hskip⟩ | ⟨_, hskip⟩
        · rw [bind_of_ok hskip] at hcrashed
          have hbreak := ih (hafter.next hc) hcrashed
          rw [rest_next hc] at hbreak
          rw [hc]
          exact .comma hcomma hbreak
        · rw [bind_of_ok hskip] at hcrashed
          exact ih hafter hcrashed
      change ((stagesRound stages >>= fun r =>
        if r.2 then iterate stagesRound fuel r.1 else pure r.1) ctx).Crashed at hcrashed
      cases hrest : ctx.rest with
      | nil =>
          obtain ⟨t, ht, heof⟩ := currentToken_of_nil hctx hrest
          rw [bind_of_ok (stagesRound_stop ht (.inr heof))] at hcrashed
          exact absurd hcrashed id
      | cons t rest =>
          by_cases hstop : t.type = .rbracket ∨ t.type = .eof
          · rw [bind_of_ok (stagesRound_stop (currentToken_of_rest hrest) hstop)] at hcrashed
            exact absurd hcrashed id
          · obtain ⟨hbracket, heof⟩ := not_or.mp hstop
            have hround := @stagesRound_of_rest stages ctx t rest hrest hbracket heof
            by_cases hstage : t.type = .lbrace
            · rw [if_pos hstage] at hround
              rw [bind_congr_at hround, bind_assoc] at hcrashed
              have hend := parseBraces_end 1024 hctx hrest hstage
              cases hresult : parseBraces 1024 ctx with
              | ok v after =>
                  rw [hresult] at hend
                  cases hend with
                  | ok _ _ hbody hbehind hafter =>
                      rw [bind_of_ok hresult] at hcrashed
                      simp only [bind_assoc, pure_bind, if_true] at hcrashed
                      exact .stage hstage hbody (hbehind ▸ hskipped hafter hcrashed)
              | undefined =>
                  rw [hresult] at hend
                  cases hend with
                  | undefined hbody => exact ⟨t, rest, .here _, hstage, hbody⟩
              | running =>
                  rw [bind_of_running hresult] at hcrashed
                  exact absurd hcrashed id
              | null =>
                  rw [hresult] at hend
                  cases hend
              | exit =>
                  rw [hresult] at hend
                  cases hend
            · rw [if_neg hstage] at hround
              rw [bind_congr_at hround] at hcrashed
              simp only [bind_assoc, pure_bind, if_true] at hcrashed
              exact hrest ▸ hskipped hctx hcrashed

theorem crashes_stagesLoop : Crashes ts (loop stagesRound []) StagesBreak := by
  intro ctx hctx
  by_cases hbreak : StagesBreak ctx.rest
  · exact (stagesEnd_of_break hbreak ctx ctx.rounds [] hctx.toWithin rfl).imp id
      fun hcrashed => iff_of_true hcrashed hbreak
  · exact .inr (iff_of_false (mt (stagesBreak_of_crashed hctx.toWithin) hbreak) hbreak)

theorem reads_stages {fuel : Nat} {stages stages' : List CStr} {ctx after : ParserContext}
    (hctx : Reads ts ctx) (hok : iterate stagesRound fuel stages ctx = .ok stages' after) :
    Reads ts after := by
  induction fuel generalizing stages ctx with
  | zero => cases hok
  | succ fuel ih =>
      obtain ⟨⟨mid, more⟩, ctx₁, hround, hrest⟩ := ok_of_bind hok
      have hroom := Nat.lt_add_left ctx.current (Nat.lt_succ_self ts.tokens.length)
      have hgood := (endsStagesRound (ts.tokens.length + 1) stages).good ctx hctx hroom
      rw [hround] at hgood
      cases more with
      | true => exact ih hgood.1 hrest
      | false =>
          cases hrest
          exact hgood.1

theorem crashes_stages : Crashes ts parseStages (Behind [Tok .lbracket] StagesBreak) := by
  rw [parseStages_eq]
  refine .behind (follows_consume .lbracket (by decide)) (fun _ => inferInstance) fun _ => ?_
  refine Crashes.here (crashes_stagesLoop.before ?_ fun _ _ => inferInstance)
  exact fun hctx hok => reads_stages hctx.toReads hok

/-! ## Statements -/

/-- How the statement that starts with such a token brings the parser down. -/
def breaksOf : LexerTokenType → Breaks Token
  | .kwUse => Behind [Tok .kwUse, Maybe [.kwDatabase]] (Starts fun t => t.value = none)
  | .kwSelect => SelectBreaks ConditionBreaks
  | .kwNikalo =>
      Behind [Tok .kwNikalo, Maybe [.kwFrom], Tok .identifier, Tok .kwJahan] ConditionBreaks
  | .kwUpdate =>
      Behind [Tok .kwUpdate, Tok .identifier, Tok .kwSet,
        Separated (OfType [.comma]) Assignment, One (OfType [.kwJahan, .kwWhere])] ConditionBreaks
  | .kwAlter =>
      Behind [Tok .kwAlter, Tok .kwTable, Tok .identifier, One (OfType [.kwAdd, .kwModify]),
        Maybe [.kwColumn], Tok .identifier] (Starts (OfType columnTypes))
  | .kwRakho =>
      Behind [Tok .kwRakho, Tok .identifier, Tok .lbrace] fun body => ¬ FlatBodyFits 1024 body
  | .kwFind =>
      Behind [Tok .kwFind, Tok .identifier, Tok .lbrace]
        fun body => ¬ BodyFits 1024 (splitBraces 1 body).1
  | .kwUpsert =>
      Behind [Tok .kwUpsert, Tok .identifier, Tok .lbrace]
        fun body => ¬ BodyFits 2048 (splitBraces 1 body).1
  | .kwAggregate => Behind [Tok .kwAggregate, Tok .identifier, Tok .lbracket] StagesBreak
  | type => fun before => type ∉ startTypes ∧ Starts (fun t => t.value = none) before

/-- The statement brings the parser down. -/
def StatementBreaks (before : List Token) : Prop :=
  ∃ t ∈ before.head?, breaksOf t.type before

/-- A decision for the braces or for another body. -/
theorem crashes_body {type : LexerTokenType} {p q : Parser α} {B : Breaks Token}
    (hp : Crashes ts p (Behind [Tok type] B)) (hq : Safe ts q) :
    Crashes ts (do if (← currentType) = type then p else q) (Behind [Tok type] B) := by
  refine .of_currentType fun ctx t rest hctx hrest => ?_
  by_cases ht : t.type = type
  · rw [if_pos ht]
    exact hp ctx hctx
  · rw [if_neg ht]
    refine (hq.crashes ctx hctx).of_eq rfl ?_
    simp [hrest, behind_cons, ht]

/-- The body of a document, in braces or as a string. -/
def parseBody (braces : Parser CStr) : Parser CStr := do
  if (← currentType) = .lbrace then braces else consumeText .string

def parseFindFilter : Parser (Option CStr) := do
  if (← currentType) = .lbrace then return some (← parseBraces 1024) else return none

def parseStageList : Parser (List CStr) := do
  if (← currentType) = .lbracket then parseStages else return []

/-- The rounds left are enough, whatever the parser before has read. -/
theorem reads_of_ends {p : Parser α} {ctx after : ParserContext} {a : α}
    (hp : ∀ room, Ends false ts room p) (hctx : Reads ts ctx) (hok : p ctx = .ok a after) :
    Reads ts after := by
  have hroom := Nat.lt_add_left ctx.current (Nat.lt_succ_self ts.tokens.length)
  have hgood := (hp (ts.tokens.length + 1)).good ctx hctx hroom
  rw [hok] at hgood
  exact hgood.1

theorem lands_stageList : Lands ts parseStageList := by
  intro ctx stages after hctx hok
  obtain ⟨type, ctx₁, htype, hrest⟩ := ok_of_bind hok
  have hctx₁ := reads_of_ends (fun _ => inferInstance) hctx.toReads htype
  split at hrest
  · obtain ⟨_, ctx₂, hopen, hrest⟩ := ok_of_bind hrest
    have hctx₂ := reads_of_ends (fun _ => inferInstance) hctx₁ hopen
    obtain ⟨_, ctx₃, hloop, hclose⟩ := ok_of_bind hrest
    have hctx₃ := reads_stages hctx₂ hloop
    exact reads_of_ends (fun _ => inferInstance) hctx₃ hclose
  · exact reads_of_ends (fun _ => inferInstance) hctx₁ hrest

theorem parseDocInsert_eq : parseDocInsert = (do
    let _ ← consume .kwRakho
    let collection ← consumeText .identifier
    let body ← parseBody (parseFlatBraces 1024)
    let _ ← consume .semicolon
    return .docInsert collection body) := by
  simp only [parseDocInsert, parseBody, bind_assoc, ite_bind]

theorem parseUpsert_eq : parseUpsert = (do
    let _ ← consume .kwUpsert
    let collection ← consumeText .identifier
    let body ← parseBody (parseBraces 2048)
    let _ ← consume .semicolon
    return .docUpsert collection body) := by
  simp only [parseUpsert, parseBody, bind_assoc, ite_bind]

theorem parseFind_eq : parseFind = (do
    let _ ← consume .kwFind
    let collection ← consumeText .identifier
    let filter ← parseFindFilter
    let _ ← consume .semicolon
    return .docGet collection filter) := by
  simp only [parseFind, parseFindFilter, bind_assoc, pure_bind, ite_bind]

theorem parseAggregate_eq : parseAggregate = (do
    let _ ← consume .kwAggregate
    let collection ← consumeText .identifier
    let stages ← parseStageList
    let _ ← consume .semicolon
    return .docAggregate collection stages) := by
  simp only [parseAggregate, parseStageList, bind_assoc, pure_bind, ite_bind]

theorem crashes_docInsert : Crashes ts parseDocInsert
    (Behind [Tok .kwRakho, Tok .identifier, Tok .lbrace]
      fun body => ¬ FlatBodyFits 1024 body) := by
  rw [parseDocInsert_eq]
  refine .behind (follows_consume .kwRakho (by decide)) (fun _ => inferInstance) fun _ => ?_
  refine .behind (follows_consumeText .identifier (by decide)) (fun _ => inferInstance)
    fun collection => ?_
  have hbody := crashes_body (@crashes_flatBraces ts 1024 (by decide))
    (q := consumeText .string) fun _ => inferInstance
  exact hbody.before (lands_of_ends fun _ => inferInstance) fun _ _ => inferInstance

theorem crashes_upsert : Crashes ts parseUpsert
    (Behind [Tok .kwUpsert, Tok .identifier, Tok .lbrace]
      fun body => ¬ BodyFits 2048 (splitBraces 1 body).1) := by
  rw [parseUpsert_eq]
  refine .behind (follows_consume .kwUpsert (by decide)) (fun _ => inferInstance) fun _ => ?_
  refine .behind (follows_consumeText .identifier (by decide)) (fun _ => inferInstance)
    fun collection => ?_
  have hbody := crashes_body (@crashes_braces ts 2048) (q := consumeText .string)
    fun _ => inferInstance
  exact hbody.before (lands_of_ends fun _ => inferInstance) fun _ _ => inferInstance

theorem crashes_find : Crashes ts parseFind
    (Behind [Tok .kwFind, Tok .identifier, Tok .lbrace]
      fun body => ¬ BodyFits 1024 (splitBraces 1 body).1) := by
  rw [parseFind_eq]
  refine .behind (follows_consume .kwFind (by decide)) (fun _ => inferInstance) fun _ => ?_
  refine .behind (follows_consumeText .identifier (by decide)) (fun _ => inferInstance)
    fun collection => ?_
  have hbraces : Crashes ts (do return some (← parseBraces 1024)) _ :=
    (@crashes_braces ts 1024).before (lands_of_ends fun _ => inferInstance)
      fun _ _ => inferInstance
  have hfilter := crashes_body hbraces (q := pure none) fun _ => inferInstance
  exact hfilter.before (lands_of_ends fun _ => by infer_instance) fun _ _ => inferInstance

theorem crashes_aggregate : Crashes ts parseAggregate
    (Behind [Tok .kwAggregate, Tok .identifier, Tok .lbracket] StagesBreak) := by
  rw [parseAggregate_eq]
  refine .behind (follows_consume .kwAggregate (by decide)) (fun _ => inferInstance) fun _ => ?_
  refine .behind (follows_consumeText .identifier (by decide)) (fun _ => inferInstance)
    fun collection => ?_
  have hstages := crashes_body (@crashes_stages ts) (q := pure []) fun _ => inferInstance
  exact hstages.before lands_stageList fun _ _ => inferInstance

/-- A use of the current token's text before a parser that can only fail. -/
theorem crashesAt_text {p : CStr → Parser α} (hp : ∀ v, Safe ts (p v)) {ctx : ParserContext}
    {t : Token} {rest : List Token} (hctx : Standing ts ctx) (hrest : ctx.rest = t :: rest) :
    CrashesAt (text t >>= p) (Starts fun t => t.value = none) ctx := by
  cases hv : t.value with
  | none =>
      have htext : text t ctx = .undefined := by
        unfold text
        rw [hv]
        rfl
      refine .inr (iff_of_true ?_ ?_)
      · rw [bind_of_undefined htext]
        trivial
      · rw [hrest, starts_cons]
        exact hv
  | some v =>
      have htext : text t ctx = .ok v ctx := by
        unfold text
        rw [hv]
        rfl
      refine .inr (iff_of_false ?_ ?_)
      · rw [bind_of_ok htext]
        exact (hp v).not_crashed hctx.toReads
      · rw [hrest, starts_cons, hv]
        exact nofun

theorem crashes_useDb : Crashes ts parseUseDb
    (Behind [Tok .kwUse, Maybe [.kwDatabase]] (Starts fun t => t.value = none)) := by
  refine .behind (follows_consume .kwUse (by decide)) (fun _ => inferInstance) fun _ => ?_
  refine .behind (follows_skip .kwDatabase (by decide)) (fun _ => inferInstance) fun _ => ?_
  refine Crashes.here fun ctx hctx => ?_
  obtain ⟨t, rest, hrest⟩ := hctx.exists_rest
  have hname : ∀ v, Safe ts (do
      let _ ← consume .identifier
      skip .semicolon
      return ASTNode.useDb v) := fun v => fun _ => inferInstance
  exact (crashesAt_text hname hctx hrest).of_eq (bind_of_ok (currentToken_of_rest hrest)) Iff.rfl

theorem crashes_select : Crashes ts parseSelect (SelectBreaks ConditionBreaks) :=
  (crashes_selectBody follows_expression crashes_expression).before
    (follows_selectBody follows_expression).lands fun _ _ => inferInstance

theorem crashes_delete : Crashes ts parseDelete
    (Behind [Tok .kwNikalo, Maybe [.kwFrom], Tok .identifier, Tok .kwJahan] ConditionBreaks) := by
  refine .behind (follows_consume .kwNikalo (by decide)) (fun _ => inferInstance) fun _ => ?_
  refine .behind (follows_skip .kwFrom (by decide)) (fun _ => inferInstance) fun _ => ?_
  refine .behind (follows_consumeText .identifier (by decide)) (fun _ => inferInstance)
    fun table => ?_
  have hnone : Crashes ts (pure none : Parser (Option Expr)) fun _ => False :=
    Safe.crashes fun _ => inferInstance
  have hwhere : Crashes ts parseWhere (Behind [Tok .kwJahan] ConditionBreaks) := by
    refine (crashes_filter (by decide) follows_expression crashes_expression hnone).congr
      fun before => ?_
    rw [and_false, or_false]
  exact hwhere.before (lands_of_ends fun _ => inferInstance) fun _ _ => inferInstance

theorem follows_assignment : Follows ts parseAssignment Assignment := by
  refine (follows_consumeText .identifier (by decide)).bind fun col => ?_
  refine (follows_consume .equals (by decide)).bind fun _ => Follows.single fun ctx hctx => ?_
  obtain ⟨t, rest, hrest⟩ := hctx.exists_rest
  have hcurrent := currentToken_of_rest hrest
  by_cases ht : t.type = .string ∨ t.type = .intLiteral ∨ t.type = .floatLiteral ∨
      t.type = .identifier
  · have htext : t.type ∈ textTypes := by rcases ht with h | h | h | h <;> rw [h] <;> decide
    have hne : t.type ≠ .eof := by rcases ht with h | h | h | h <;> rw [h] <;> decide
    obtain ⟨v, hv⟩ := text_eq (hctx.mem hrest) htext
    refine (follows_pure (col, v) ctx.next (hctx.next hrest hne)).of_eq ?_ fun behind => ?_
    · rw [bind_of_ok hcurrent, if_pos ht, hv, pure_bind, bind_of_ok (advance_of_rest hrest)]
    · simp [hrest, rest_next hrest, ht]
  · refine .of_not_ok (fun _ _ => ?_) fun behind => ?_
    · rw [bind_of_ok hcurrent, if_neg ht]
      exact nofun
    · simp [hrest, ht]

def parseUpdateWhere : Parser (Option Expr) := do
  if ← tryMatch .kwJahan then return some (← parseExpression)
  else
    if ← tryMatch .kwWhere then return some (← parseExpression) else return none

theorem parseUpdate_eq : parseUpdate = (do
    let _ ← consume .kwUpdate
    let table ← consumeText .identifier
    let _ ← consume .kwSet
    let sets ← commaList parseAssignment
    let whereClause ← parseUpdateWhere
    let _ ← consume .semicolon
    return .update table sets whereClause) := by
  simp only [parseUpdate, parseUpdateWhere, bind_assoc, pure_bind, ite_bind]

instance endsUpdateWhere {room : Nat} : Ends false ts room parseUpdateWhere := by
  unfold parseUpdateWhere
  infer_instance

theorem crashes_update : Crashes ts parseUpdate
    (Behind [Tok .kwUpdate, Tok .identifier, Tok .kwSet,
      Separated (OfType [.comma]) Assignment, One (OfType [.kwJahan, .kwWhere])]
      ConditionBreaks) := by
  rw [parseUpdate_eq]
  refine .behind (follows_consume .kwUpdate (by decide)) (fun _ => inferInstance) fun _ => ?_
  refine .behind (follows_consumeText .identifier (by decide)) (fun _ => inferInstance)
    fun table => ?_
  refine .behind (follows_consume .kwSet (by decide)) (fun _ => inferInstance) fun _ => ?_
  refine .behind (follows_commaList follows_assignment) (fun _ => inferInstance) fun sets => ?_
  have hnone : Crashes ts (pure none : Parser (Option Expr)) fun _ => False :=
    Safe.crashes fun _ => inferInstance
  have hwhere : Crashes ts parseUpdateWhere
      (Behind [One (OfType [.kwJahan, .kwWhere])] ConditionBreaks) := by
    refine (crashes_filter (by decide) follows_expression crashes_expression
      (crashes_filter (by decide) follows_expression crashes_expression hnone)).congr
      fun before => ?_
    cases before with
    | nil => simp
    | cons t rest =>
        simp only [behind_one_cons, behind_nil, starts_cons, ofType_iff, List.mem_cons,
          List.not_mem_nil, or_false, and_false]
        tauto
  exact hwhere.before (lands_of_ends fun _ => inferInstance) fun _ _ => inferInstance

/-! ### ALTER TABLE -/

/-- The tokens of a query: keywords have no text. -/
class Lexed (ts : TokenStream) : Prop where
  plain : ∀ t ∈ ts.tokens, t.value.isSome → t.type ∈ textTypes

instance lexedTokenStream (query : CStr) : Lexed (tokenStream query) where
  plain t ht hsome := by
    obtain ⟨v, hv⟩ := Option.isSome_iff_exists.mp hsome
    exact (tokenize_textFits query t ht v hv).1

theorem isSome_columnTypeText (type : LexerTokenType) :
    (columnTypeText type).isSome = true ↔ type ∈ columnTypes := by
  cases type <;> decide

/-- The text of a column type is never there. -/
theorem parseAlteredType_eq [hlexed : Lexed ts] {ctx : ParserContext} {t : Token}
    {rest : List Token} (hctx : Standing ts ctx) (hrest : ctx.rest = t :: rest) :
    parseAlteredType ctx = if t.type ∈ columnTypes then .undefined else .null := by
  unfold parseAlteredType
  rw [bind_of_ok (currentType_of_rest hrest)]
  by_cases ht : t.type ∈ columnTypes
  · have hnot : ∀ type ∈ columnTypes, type ∉ textTypes := by decide
    have hv : t.value = none := by
      by_contra hne
      exact hnot _ ht (hlexed.plain t (hctx.mem hrest) (Option.isSome_iff_ne_none.mpr hne))
    have hconsume := consume_eq t.type hrest
    rw [if_pos rfl] at hconsume
    rw [if_pos ht, if_pos ((isSome_columnTypeText _).mpr ht)]
    unfold consumeText text
    rw [bind_of_ok hconsume, hv]
    rfl
  · rw [if_neg ht, if_neg (mt (isSome_columnTypeText _).mp ht)]
    rfl

/-- Nothing behind the type of a column is ever parsed. -/
theorem crashes_alteredType [Lexed ts] (f : CStr → Parser β) :
    Crashes ts (parseAlteredType >>= f) (Starts (OfType columnTypes)) := by
  intro ctx hctx
  obtain ⟨t, rest, hrest⟩ := hctx.exists_rest
  have heq := parseAlteredType_eq hctx hrest
  by_cases ht : t.type ∈ columnTypes
  · rw [if_pos ht] at heq
    refine .inr (iff_of_true ?_ ?_)
    · rw [bind_of_undefined heq]
      trivial
    · simp [hrest, ht]
  · rw [if_neg ht] at heq
    refine .inr (iff_of_false ?_ ?_)
    · rw [bind_of_null heq]
      exact id
    · simp [hrest, ht]

theorem crashes_alteredColumn [Lexed ts] (f : CStr → CStr → Parser β) :
    Crashes ts (do
      skip .kwColumn
      let col ← consumeText .identifier
      let type ← parseAlteredType
      f col type) (Behind [Maybe [.kwColumn], Tok .identifier] (Starts (OfType columnTypes))) := by
  refine .behind (follows_skip .kwColumn (by decide)) (fun _ => inferInstance) fun _ => ?_
  refine .behind (follows_consumeText .identifier (by decide)) (fun _ => inferInstance)
    fun col => ?_
  exact Crashes.here (crashes_alteredType _)

/-- A parser that is safe here crashes nowhere, and the set says so. -/
theorem Safe.crashesAt {p : Parser α} {B : Breaks Token} {ctx : ParserContext} (hp : Safe ts p)
    (hctx : Standing ts ctx) (hnot : ¬ B ctx.rest) : CrashesAt p B ctx :=
  (hp.crashes ctx hctx).of_eq rfl (iff_false_intro hnot)

theorem crashes_alteration [Lexed ts] (table : CStr) : Crashes ts (parseAlteration table)
    (Behind [One (OfType [.kwAdd, .kwModify]), Maybe [.kwColumn], Tok .identifier]
      (Starts (OfType columnTypes))) := by
  refine .of_currentType fun ctx t rest hctx hrest => ?_
  have hadvance := advance_of_rest hrest
  by_cases hadd : t.type = .kwAdd
  · have hnext := hctx.next hrest (by simp [hadd])
    obtain ⟨t', rest', hrest'⟩ := hnext.exists_rest
    have hcolumn := (crashes_alteredColumn (fun col type => do
        let alter ← loop parseColumnConstraint
          { tableName := table, columnName := some col, columnType := some type,
            isNullable := true }
        return some (ASTNode.alterTable .addColumn alter)) ctx.next hnext)
    rw [hadd]
    refine @CrashesAt.of_eq _ _ _ (Behind [Maybe [.kwColumn], Tok .identifier]
      (Starts (OfType columnTypes))) _ _ _ ?_ ((bind_of_ok hadvance).trans
        (bind_of_ok (currentType_of_rest hrest'))) ?_
    · generalize htype : t'.type = type
      split
      · simpa only [parseAddColumn, bind_assoc, pure_bind] using hcolumn
      · simpa only [parseAddColumn, bind_assoc, pure_bind] using hcolumn
      · refine Safe.crashesAt (fun _ => inferInstance) hnext ?_
        simp [hrest', htype]
      · next hcol hident _ =>
          have hcol : type ≠ .kwColumn := hcol
          have hident : type ≠ .identifier := hident
          refine Safe.crashesAt (fun _ => inferInstance) hnext ?_
          simp [hrest', htype, hcol, hident]
    · simp [hrest, rest_next hrest, hadd]
  · by_cases hmodify : t.type = .kwModify
    · have hnext := hctx.next hrest (by simp [hmodify])
      rw [hmodify]
      refine (crashes_alteredColumn (fun col type => pure (some (.alterTable .modifyColumn
        { tableName := table, columnName := some col, columnType := some type })))
        ctx.next hnext).of_eq (bind_of_ok hadvance) ?_
      simp [hrest, rest_next hrest, hmodify]
    · have hnot : ¬ Behind [One (OfType [.kwAdd, .kwModify]), Maybe [.kwColumn], Tok .identifier]
          (Starts (OfType columnTypes)) ctx.rest := by simp [hrest, hadd, hmodify]
      generalize t.type = type at hadd hmodify ⊢
      split
      · exact absurd rfl hadd
      · exact Safe.crashesAt (fun _ => inferInstance) hctx hnot
      · exact Safe.crashesAt (fun _ => inferInstance) hctx hnot
      · exact absurd rfl hmodify
      · exact Safe.crashesAt (fun _ => inferInstance) hctx hnot

theorem ite_bind_right (p : Parser Bool) (q : Parser α) (k : Parser β) :
    (p >>= fun b => if b = true then q >>= fun _ => k else k) =
      (do if ← p then let _ ← q) >>= fun _ => k := by
  simp only [bind_assoc, pure_bind, ite_bind]

theorem parseAlterTable_eq : parseAlterTable = (do
    let _ ← (do if ← tryMatch .kwAlter then let _ ← consume .kwTable)
    let table ← consumeText .identifier
    let node ← parseAlteration table
    let _ ← consume .semicolon
    match node with
    | some node => return node
    | none => fail) :=
  ite_bind_right _ _ _

theorem crashes_alterTable [Lexed ts] : Crashes ts parseAlterTable
    (Behind [Optional (OfType [.kwAlter]) (Tok .kwTable), Tok .identifier,
      One (OfType [.kwAdd, .kwModify]), Maybe [.kwColumn], Tok .identifier]
      (Starts (OfType columnTypes))) := by
  rw [parseAlterTable_eq]
  have halter : Follows ts (do if ← tryMatch .kwAlter then let _ ← consume .kwTable)
      (Optional (OfType [.kwAlter]) (Tok .kwTable)) :=
    follows_tryMatch (by decide) (follows_consume .kwTable (by decide)).map (follows_pure _)
  refine .behind halter (fun _ => inferInstance) fun _ => ?_
  refine .behind (follows_consumeText .identifier (by decide)) (fun _ => inferInstance)
    fun table => ?_
  refine (crashes_alteration table).before (lands_of_ends fun _ => inferInstance) fun node _ => ?_
  cases node <;> infer_instance

/-! ### Any statement -/

theorem breaksOf_of_notMem {type : LexerTokenType} (htype : type ∉ looseTypes)
    (before : List Token) :
    breaksOf type before ↔ type ∉ startTypes ∧ Starts (fun t => t.value = none) before := by
  unfold breaksOf
  split <;> first
    | exact Iff.rfl
    | exact absurd (by decide) htype


theorem crashes_from [Lexed ts] {ctx : ParserContext} {t : Token} {rest : List Token}
    (hctx : Standing ts ctx) (hrest : ctx.rest = t :: rest) :
    CrashesAt (parseFrom t) (breaksOf t.type) ctx := by
  by_cases hloose : t.type ∈ looseTypes
  · unfold parseFrom
    simp only [looseTypes, List.mem_cons, List.not_mem_nil, or_false] at hloose
    rcases hloose with h | h | h | h | h | h | h | h | h <;> rw [h]
    · exact crashes_useDb ctx hctx
    · exact crashes_select ctx hctx
    · exact crashes_docInsert ctx hctx
    · exact crashes_delete ctx hctx
    · exact crashes_update ctx hctx
    · refine (crashes_alterTable ctx hctx).of_eq rfl ?_
      simp [breaksOf, hrest, h]
    · exact crashes_find ctx hctx
    · exact crashes_upsert ctx hctx
    · exact crashes_aggregate ctx hctx
  · by_cases hstart : t.type ∈ startTypes
    · have hsafe : Safe ts (parseFrom t) := fun _ => endsFrom (hctx.mem hrest) hstart hloose
      exact hsafe.crashesAt hctx fun hbreaks => ((breaksOf_of_notMem hloose _).mp hbreaks).1 hstart
    · rw [parseFrom_of_stray hstart]
      refine (crashesAt_text (fun _ => fun _ => inferInstance) hctx hrest).of_eq rfl ?_
      rw [breaksOf_of_notMem hloose, and_iff_right hstart]

theorem crashes_statement [Lexed ts] : Crashes ts parseStatement StatementBreaks := by
  intro ctx hctx
  obtain ⟨t, rest, hrest⟩ := hctx.exists_rest
  refine (crashes_from hctx hrest).of_eq (bind_of_ok (currentToken_of_rest hrest)) ?_
  simp [StatementBreaks, hrest]

/-! ## Queries -/

/-- The parser returns a statement, or reports a failure with NULL. -/
def Result.Answers : Result α → Prop
  | .ok _ _ => True
  | .null => True
  | .exit => False
  | .undefined => False
  | .running => False

theorem Result.answers_iff (r : Result α) : r.Answers ↔ ¬ r.Crashed ∧ r ≠ .running := by
  cases r <;> simp [Result.Answers, Result.Crashed]

theorem standing_tokenStream (query : CStr) (rounds : Nat)
    (hrounds : (tokenize query).length < rounds) :
    Standing (tokenStream query) { tokens := tokenize query, current := 0, rounds := rounds } where
  toReads := ⟨⟨rfl, Nat.zero_le _⟩, hrounds⟩
  ahead := by simp [ParserContext.rest, tokenize]

/-- The parser answers every query but those that bring it down and those it never gets through. -/
theorem parse_answers_iff (query : CStr) :
    (parse (tokenize query)).Answers ↔
      ¬ StatementBreaks (tokenize query) ∧ ¬ AggregateStuck (tokenize query) := by
  have hctx := standing_tokenStream query _ (Nat.lt_succ_self (tokenize query).length)
  have hcrash : parse (tokenize query) = .running ∨
      ((parse (tokenize query)).Crashed ↔ StatementBreaks (tokenize query)) :=
    crashes_statement _ hctx
  rw [Result.answers_iff]
  by_cases hstuck : AggregateStuck (tokenize query)
  · have hrun : parse (tokenize query) = .running :=
      parseStatement_of_stuck hctx.toWithin hstuck
    exact iff_of_false (fun h => h.2 hrun) fun h => h.2 hstuck
  · have hend : parse (tokenize query) ≠ .running := by
      have hgood : (parse (tokenize query)).Good false _ _ :=
        good_parseStatement hctx.toReads hstuck
      intro hrun
      rw [hrun] at hgood
      exact hgood
    rw [hcrash.resolve_left hend]
    simp only [hend, hstuck, ne_eq, not_false_eq_true, and_true]

end Sql
end InventixDB
