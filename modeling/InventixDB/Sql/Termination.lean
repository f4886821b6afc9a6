import InventixDB.Sql.Progress

/-!
# Termination — which token lists the parser ends on

The loop over the stages of AGGREGATE consumes braces and commas, and stops at a bracket and at the
end of the input.  Any other token keeps it going.
-/

namespace InventixDB
namespace Sql

open Storage
open InventixDB.Sql.Parser

variable {α β : Type} {ts : TokenStream}

/-! ## What is left of the tokens -/

def ParserContext.rest (ctx : ParserContext) : List Token :=
  ctx.tokens.drop ctx.current

def ParserContext.next (ctx : ParserContext) : ParserContext :=
  { ctx with current := ctx.current + 1 }

section Rest

variable {ctx : ParserContext} {t : Token} {rest : List Token}

theorem currentToken_of_rest (hrest : ctx.rest = t :: rest) : currentToken ctx = .ok t ctx := by
  have hget : ctx.tokens[ctx.current]? = some t := by
    rw [← List.head?_drop, show ctx.tokens.drop ctx.current = t :: rest from hrest]
    rfl
  unfold currentToken
  rw [hget]

theorem current_lt_of_rest (hrest : ctx.rest = t :: rest) : ctx.current < ctx.tokens.length := by
  by_contra hge
  have hnil : ctx.rest = [] := List.drop_eq_nil_of_le (Nat.le_of_not_lt hge)
  rw [hrest] at hnil
  cases hnil

theorem advance_of_rest (hrest : ctx.rest = t :: rest) : advance ctx = .ok () ctx.next := by
  unfold advance
  rw [if_pos (current_lt_of_rest hrest)]
  rfl

theorem rest_next (hrest : ctx.rest = t :: rest) : ctx.next.rest = rest := by
  have hdrop : ctx.next.rest = (ctx.rest).drop 1 := by
    unfold ParserContext.rest ParserContext.next
    rw [List.drop_drop]
  rw [hdrop, hrest]
  rfl

theorem Within.next (hctx : Within ts ctx) (hrest : ctx.rest = t :: rest) :
    Within ts ctx.next where
  tokens := hctx.tokens
  current := by
    have hlt := current_lt_of_rest hrest
    rw [hctx.tokens] at hlt
    exact hlt

/-- Behind the last token the parser still sees the end of the input. -/
theorem currentToken_of_nil (hctx : Within ts ctx) (hrest : ctx.rest = []) :
    ∃ t, currentToken ctx = .ok t ctx ∧ t.type = .eof := by
  obtain ⟨t, heq, _, hget⟩ := currentToken_eq hctx
  refine ⟨t, heq, ?_⟩
  by_contra hne
  have hsome : ctx.rest.head? = some t := by
    rw [ParserContext.rest, List.head?_drop, hctx.tokens]
    exact hget hne
  rw [hrest] at hsome
  cases hsome

end Rest

/-! ## Braces -/

/-- The tokens up to the brace that closes the `depth` open ones, or up to the end of the input, and
what is behind them. -/
def splitBraces : Nat → List Token → List Token × List Token
  | _, [] => ([], [])
  | depth, t :: rest =>
      if t.type = .eof then ([], t :: rest)
      else if braceDepth depth t.type = 0 then ([], rest)
      else
        let r := splitBraces (braceDepth depth t.type) rest
        (t :: r.1, r.2)

/-- The length of the texts, with a blank behind each. -/
def textLength (body : List Token) : Nat :=
  (body.map fun t => (t.value.map CStr.length).getD 0 + 1).sum

/-- Every token has a text, and the texts between braces fit the buffer. -/
def BodyFits (size : Nat) (body : List Token) : Prop :=
  (∀ t ∈ body, t.value.isSome) ∧ textLength body + 2 < size

/-- What the loop between braces can come to. -/
def BracesResult (size : Nat) (ts : TokenStream) (body behind : List Token) (buffer : CStr) :
    Result (CStr × Nat) → Prop
  | .ok s after =>
      (∀ t ∈ body, t.value.isSome) ∧ s.1.length = buffer.length + textLength body ∧
        after.rest = behind ∧ Within ts after
  | .undefined => ¬ ((∀ t ∈ body, t.value.isSome) ∧ buffer.length + textLength body < size)
  | .running => True
  | .null => False
  | .exit => False

theorem bind_of_ok {p : Parser α} {f : α → Parser β} {a : α} {ctx after : ParserContext}
    (hp : p ctx = .ok a after) : (p >>= f) ctx = f a after := by
  change Parser.bind p f ctx = _
  unfold Parser.bind
  rw [hp]

theorem bind_congr_at {p q : Parser α} {f : α → Parser β} {ctx : ParserContext}
    (heq : p ctx = q ctx) : (p >>= f) ctx = (q >>= f) ctx := by
  change Parser.bind p f ctx = Parser.bind q f ctx
  unfold Parser.bind
  rw [heq]

theorem bind_of_null {p : Parser α} {f : α → Parser β} {ctx : ParserContext}
    (hp : p ctx = .null) : (p >>= f) ctx = .null := by
  change Parser.bind p f ctx = _
  unfold Parser.bind
  rw [hp]

theorem bind_of_undefined {p : Parser α} {f : α → Parser β} {ctx : ParserContext}
    (hp : p ctx = .undefined) : (p >>= f) ctx = .undefined := by
  change Parser.bind p f ctx = _
  unfold Parser.bind
  rw [hp]

theorem bind_of_running {p : Parser α} {f : α → Parser β} {ctx : ParserContext}
    (hp : p ctx = .running) : (p >>= f) ctx = .running := by
  change Parser.bind p f ctx = _
  unfold Parser.bind
  rw [hp]

theorem iterate_of_more {body : α → Parser (α × Bool)} {fuel : Nat} {a b : α}
    {ctx after : ParserContext} (hround : body a ctx = .ok (b, true) after) :
    iterate body (fuel + 1) a ctx = iterate body fuel b after := by
  change (body a >>= _) ctx = _
  rw [bind_of_ok hround]
  rfl

theorem iterate_of_stop {body : α → Parser (α × Bool)} {fuel : Nat} {a b : α}
    {ctx after : ParserContext} (hround : body a ctx = .ok (b, false) after) :
    iterate body (fuel + 1) a ctx = .ok b after := by
  change (body a >>= _) ctx = _
  rw [bind_of_ok hround]
  rfl

theorem iterate_of_undefined {body : α → Parser (α × Bool)} {fuel : Nat} {a : α}
    {ctx : ParserContext} (hround : body a ctx = .undefined) :
    iterate body (fuel + 1) a ctx = .undefined :=
  bind_of_undefined hround

theorem length_append (a b : CStr) : (a ++ b).length = a.length + b.length := by
  unfold CStr.length
  rw [CStr.val_append, List.length_append]

theorem length_blank : (CStr.lit " ").length = 1 := by
  decide

/-- Both calls of `strcat` for one token. -/
theorem strcat_strcat {size : Nat} {buffer v : CStr} {f : CStr → Parser α} {ctx : ParserContext} :
    (strcat size buffer v >>= fun buffer => strcat size buffer (CStr.lit " ") >>= f) ctx =
      if buffer.length + (v.length + 1) < size then f (buffer ++ v ++ CStr.lit " ") ctx
      else .undefined := by
  have hlen : (buffer ++ v ++ CStr.lit " ").length = buffer.length + (v.length + 1) := by
    rw [length_append, length_append, length_blank, Nat.add_assoc]
  by_cases hfits : buffer.length + (v.length + 1) < size
  · have hfirst : strcat size buffer v ctx = .ok (buffer ++ v) ctx := by
      rw [strcat, if_pos (by rw [length_append]; omega)]
      rfl
    have hblank : strcat size (buffer ++ v) (CStr.lit " ") ctx =
        .ok (buffer ++ v ++ CStr.lit " ") ctx := by
      rw [strcat, if_pos (by rw [hlen]; exact hfits)]
      rfl
    rw [if_pos hfits, bind_of_ok hfirst, bind_of_ok hblank]
  · rw [if_neg hfits]
    by_cases hfirst : (buffer ++ v).length < size
    · have hok : strcat size buffer v ctx = .ok (buffer ++ v) ctx := by
        rw [strcat, if_pos hfirst]
        rfl
      rw [bind_of_ok hok]
      refine bind_of_undefined ?_
      rw [strcat, if_neg (by rw [hlen]; exact hfits)]
      rfl
    · refine bind_of_undefined ?_
      rw [strcat, if_neg hfirst]
      rfl

/-- The text of a token is copied, with a blank behind it. -/
theorem copied_of_rest {α : Type} {size : Nat} {buffer : CStr} {ctx : ParserContext} {t : Token}
    {rest : List Token} (hrest : ctx.rest = t :: rest) (f : CStr → α) :
    (do
      let buffer ← strcat size buffer (← text t)
      let buffer ← strcat size buffer (CStr.lit " ")
      advance
      return f buffer : Parser α) ctx =
      match t.value with
      | some v =>
          if buffer.length + (v.length + 1) < size then
            .ok (f (buffer ++ v ++ CStr.lit " ")) ctx.next
          else .undefined
      | none => .undefined := by
  unfold text
  cases hv : t.value with
  | none => exact bind_of_undefined rfl
  | some v =>
      rw [pure_bind, strcat_strcat]
      dsimp only
      split
      · rw [bind_of_ok (advance_of_rest hrest)]
        rfl
      · rfl

/-- A round at a token that is copied. -/
theorem bracesRound_of_rest {size depth : Nat} {buffer : CStr} {ctx : ParserContext} {t : Token}
    {rest : List Token} (hrest : ctx.rest = t :: rest) (hdepth : depth ≠ 0) (heof : t.type ≠ .eof)
    (hopen : braceDepth depth t.type ≠ 0) :
    bracesRound size (buffer, depth) ctx =
      match t.value with
      | some v =>
          if buffer.length + (v.length + 1) < size then
            .ok ((buffer ++ v ++ CStr.lit " ", braceDepth depth t.type), true) ctx.next
          else .undefined
      | none => .undefined := by
  unfold bracesRound
  rw [bind_of_ok (currentToken_of_rest hrest), if_neg (by simp [hdepth, heof]), if_neg hopen]
  exact copied_of_rest hrest fun buffer => ((buffer, braceDepth depth t.type), true)

theorem textLength_cons {t : Token} {v : CStr} (hv : t.value = some v) (body : List Token) :
    textLength (t :: body) = v.length + 1 + textLength body := by
  simp [textLength, hv]

/-- The result of the rest of the loop, with one more token before it. -/
theorem BracesResult.cons {size : Nat} {body behind : List Token} {buffer v : CStr} {t : Token}
    {r : Result (CStr × Nat)} (hv : t.value = some v)
    (hresult : BracesResult size ts body behind (buffer ++ v ++ CStr.lit " ") r) :
    BracesResult size ts (t :: body) behind buffer r := by
  have hlen : (buffer ++ v ++ CStr.lit " ").length = buffer.length + (v.length + 1) := by
    rw [length_append, length_append, length_blank, Nat.add_assoc]
  have hsome : t.value.isSome = true := by
    rw [hv]
    rfl
  cases r with
  | ok s after =>
      obtain ⟨htexts, hbuffer, hbehind, hafter⟩ := hresult
      refine ⟨List.forall_mem_cons.mpr ⟨hsome, htexts⟩, ?_, hbehind, hafter⟩
      rw [hbuffer, hlen, textLength_cons hv]
      omega
  | undefined =>
      rintro ⟨htexts, hfits⟩
      refine hresult ⟨(List.forall_mem_cons.mp htexts).2, ?_⟩
      rw [textLength_cons hv] at hfits
      omega
  | running => trivial
  | null => exact hresult
  | exit => exact hresult

/-- The result of a loop that goes on where the text of a token is copied. -/
theorem BracesResult.copied {size : Nat} {body behind : List Token} {buffer : CStr} {t : Token}
    {r : Result (CStr × Nat)} {rest : CStr → Result (CStr × Nat)}
    (hsome : ∀ v, t.value = some v →
      r = if buffer.length + (v.length + 1) < size then rest v else .undefined)
    (hnone : t.value = none → r = .undefined)
    (hrest : ∀ v, BracesResult size ts body behind (buffer ++ v ++ CStr.lit " ") (rest v)) :
    BracesResult size ts (t :: body) behind buffer r := by
  cases hv : t.value with
  | none =>
      rw [hnone hv]
      rintro ⟨htexts, _⟩
      have hthere := htexts t List.mem_cons_self
      rw [hv] at hthere
      cases hthere
  | some v =>
      rw [hsome v hv]
      split
      · exact (hrest v).cons hv
      · rintro ⟨_, hlen⟩
        rw [textLength_cons hv] at hlen
        omega

/-- Behind the closing brace the loop stops. -/
theorem iterate_closed {size fuel : Nat} {buffer : CStr} {ctx : ParserContext}
    (hctx : Within ts ctx) :
    iterate (bracesRound size) fuel (buffer, 0) ctx = .running ∨
      iterate (bracesRound size) fuel (buffer, 0) ctx = .ok (buffer, 0) ctx := by
  cases fuel with
  | zero => exact .inl rfl
  | succ fuel =>
      obtain ⟨t, ht, _⟩ := currentToken_eq hctx
      have hround : bracesRound size (buffer, 0) ctx = .ok ((buffer, 0), false) ctx := by
        unfold bracesRound
        rw [bind_of_ok ht, if_pos (.inl rfl)]
        rfl
      exact .inr (iterate_of_stop hround)

theorem bracesResult_iterate {size : Nat} {fuel depth : Nat} {buffer : CStr} {ctx : ParserContext}
    (hctx : Within ts ctx) (hdepth : depth ≠ 0) :
    BracesResult size ts (splitBraces depth ctx.rest).1 (splitBraces depth ctx.rest).2 buffer
      (iterate (bracesRound size) fuel (buffer, depth) ctx) := by
  induction fuel generalizing depth buffer ctx with
  | zero => trivial
  | succ fuel ih =>
      cases hrest : ctx.rest with
      | nil =>
          obtain ⟨t, ht, heof⟩ := currentToken_of_nil hctx hrest
          have hround :
              bracesRound size (buffer, depth) ctx = .ok ((buffer, depth), false) ctx := by
            unfold bracesRound
            rw [bind_of_ok ht, if_pos (.inr heof)]
            rfl
          rw [iterate_of_stop hround]
          exact ⟨by simp [splitBraces], by simp [splitBraces, textLength], hrest, hctx⟩
      | cons t rest =>
          by_cases heof : t.type = .eof
          · have hround : bracesRound size (buffer, depth) ctx =
                .ok ((buffer, depth), false) ctx := by
              unfold bracesRound
              rw [bind_of_ok (currentToken_of_rest hrest), if_pos (.inr heof)]
              rfl
            rw [iterate_of_stop hround]
            simp only [splitBraces, if_pos heof]
            exact ⟨by simp, by simp [textLength], hrest, hctx⟩
          · by_cases hclosed : braceDepth depth t.type = 0
            · have hround : bracesRound size (buffer, depth) ctx =
                  .ok ((buffer, 0), true) ctx.next := by
                unfold bracesRound
                rw [bind_of_ok (currentToken_of_rest hrest), if_neg (by simp [hdepth, heof]),
                  if_pos hclosed, bind_of_ok (advance_of_rest hrest), hclosed]
                rfl
              rw [iterate_of_more hround]
              simp only [splitBraces, if_neg heof, if_pos hclosed]
              have hnext := hctx.next hrest
              rcases (iterate_closed hnext :
                iterate (bracesRound size) fuel (buffer, 0) ctx.next = .running ∨ _) with h | h
              · rw [h]
                trivial
              · rw [h]
                exact ⟨by simp, by simp [textLength], rest_next hrest, hnext⟩
            · have hround := @bracesRound_of_rest size depth buffer ctx t rest hrest hdepth heof
                hclosed
              simp only [splitBraces, if_neg heof, if_neg hclosed]
              refine .copied (fun v hv => ?_) (fun hv => ?_)
                fun v => rest_next hrest ▸ ih (hctx.next hrest) hclosed
              · rw [hv] at hround
                dsimp only at hround
                split_ifs at hround ⊢
                · exact iterate_of_more hround
                · exact iterate_of_undefined hround
              · rw [hv] at hround
                exact iterate_of_undefined hround

theorem consume_of_rest {ctx : ParserContext} {t : Token} {rest : List Token}
    (hrest : ctx.rest = t :: rest) : consume t.type ctx = .ok t ctx.next := by
  unfold consume
  rw [bind_of_ok (currentToken_of_rest hrest), if_pos rfl, bind_of_ok (advance_of_rest hrest)]
  rfl

/-- What the braces of a stage, a filter or a document come to. -/
inductive BracesEnd (size : Nat) (ts : TokenStream) (body behind : List Token) :
    Result CStr → Prop
  | ok (v : CStr) (after : ParserContext) (hbody : BodyFits size body) (hrest : after.rest = behind)
      (hafter : Within ts after) : BracesEnd size ts body behind (.ok v after)
  | undefined (hbody : ¬ BodyFits size body) : BracesEnd size ts body behind .undefined
  | running : BracesEnd size ts body behind .running

theorem parseBraces_end (size : Nat) {ctx : ParserContext} {t : Token} {rest : List Token}
    (hctx : Within ts ctx) (hrest : ctx.rest = t :: rest) (htype : t.type = .lbrace) :
    BracesEnd size ts (splitBraces 1 rest).1 (splitBraces 1 rest).2 (parseBraces size ctx) := by
  have hopen : (CStr.lit "\x7b").length = 1 := by decide
  have hclose : (CStr.lit "\x7d").length = 1 := by decide
  have hconsume : consume .lbrace ctx = .ok t ctx.next := htype ▸ consume_of_rest hrest
  rw [parseBraces_eq, bind_of_ok hconsume]
  have hloop := @bracesResult_iterate ts size ctx.next.rounds 1 (CStr.lit "\x7b") ctx.next
    (hctx.next hrest) (by decide)
  rw [rest_next hrest] at hloop
  change BracesEnd _ _ _ _ ((loop (bracesRound size) (CStr.lit "\x7b", 1) >>= fun r =>
    strcat size r.1 (CStr.lit "\x7d")) ctx.next)
  have heq : loop (bracesRound size) (CStr.lit "\x7b", 1) ctx.next =
      iterate (bracesRound size) ctx.next.rounds (CStr.lit "\x7b", 1) ctx.next := rfl
  cases hresult : iterate (bracesRound size) ctx.next.rounds (CStr.lit "\x7b", 1) ctx.next with
  | ok s after =>
      rw [hresult] at hloop
      obtain ⟨htexts, hlen, hbehind, hafter⟩ := hloop
      rw [bind_of_ok (heq.trans hresult)]
      unfold strcat
      rw [length_append, hclose, hlen, hopen]
      split
      · next hfits => exact .ok _ _ ⟨htexts, by omega⟩ hbehind hafter
      · next hfits => exact .undefined fun hbody => hfits (by have := hbody.2; omega)
  | undefined =>
      rw [hresult] at hloop
      rw [bind_of_undefined (heq.trans hresult)]
      refine .undefined fun hbody => hloop ⟨hbody.1, ?_⟩
      have hfits := hbody.2
      omega
  | running =>
      rw [bind_of_running (heq.trans hresult)]
      exact .running
  | null =>
      rw [hresult] at hloop
      exact absurd hloop id
  | exit =>
      rw [hresult] at hloop
      exact absurd hloop id

/-! ## Stages -/

/-- The parser reaches `rest` behind whole stages and commas. -/
inductive StagesReach : List Token → List Token → Prop
  | here (rest : List Token) : StagesReach rest rest
  | comma {t : Token} {rest behind : List Token} (htype : t.type = .comma)
      (hrest : StagesReach rest behind) : StagesReach (t :: rest) behind
  | stage {t : Token} {rest behind : List Token} (htype : t.type = .lbrace)
      (hbody : BodyFits 1024 (splitBraces 1 rest).1)
      (hrest : StagesReach (splitBraces 1 rest).2 behind) : StagesReach (t :: rest) behind

/-- The loop over the stages comes to a token that it neither consumes nor stops at. -/
def StagesStuck (rest : List Token) : Prop :=
  ∃ t behind, StagesReach rest (t :: behind) ∧
    t.type ≠ .rbracket ∧ t.type ≠ .eof ∧ t.type ≠ .lbrace ∧ t.type ≠ .comma

/-- One round of `parse_aggregate`. -/
def stagesRound (stages : List CStr) : Parser (List CStr × Bool) := do
  let type ← currentType
  if type = .rbracket ∨ type = .eof then
    return (stages, false)
  let stages ←
    if type = .lbrace then do
      let stage ← parseBraces 1024
      pure (stages ++ [stage])
    else
      pure stages
  skip .comma
  return (stages, true)

theorem parseStages_eq : parseStages = (do
    let _ ← consume .lbracket
    let stages ← loop stagesRound []
    let _ ← consume .rbracket
    return stages) := rfl

theorem currentType_of_rest {ctx : ParserContext} {t : Token} {rest : List Token}
    (hrest : ctx.rest = t :: rest) : currentType ctx = .ok t.type ctx := by
  unfold currentType
  rw [bind_of_ok (currentToken_of_rest hrest)]
  rfl

theorem skip_of_rest {ctx : ParserContext} {t : Token} {rest : List Token}
    (hrest : ctx.rest = t :: rest) : skip t.type ctx = .ok () ctx.next := by
  unfold skip tryMatch
  refine bind_of_ok (a := true) ?_
  rw [bind_of_ok (currentType_of_rest hrest), if_pos rfl, bind_of_ok (advance_of_rest hrest)]
  rfl

/-- Any other token stays. -/
theorem skip_of_ne {ctx : ParserContext} {type : LexerTokenType} (hctx : Within ts ctx)
    (hnil : type ≠ .eof) (hne : ∀ t rest, ctx.rest = t :: rest → t.type ≠ type) :
    skip type ctx = .ok () ctx := by
  have hcurrent : ∃ t, currentToken ctx = .ok t ctx ∧ t.type ≠ type := by
    cases hrest : ctx.rest with
    | nil =>
        obtain ⟨t, ht, heof⟩ := currentToken_of_nil hctx hrest
        exact ⟨t, ht, heof ▸ hnil.symm⟩
    | cons t rest => exact ⟨t, currentToken_of_rest hrest, hne t rest hrest⟩
  obtain ⟨t, ht, htype⟩ := hcurrent
  have hct : currentType ctx = .ok t.type ctx := by
    unfold currentType
    rw [bind_of_ok ht]
    rfl
  unfold skip tryMatch
  refine bind_of_ok (a := false) ?_
  rw [bind_of_ok hct, if_neg htype]
  rfl

/-- Where the next round starts: a comma is skipped. -/
theorem skip_comma {ctx : ParserContext} (hctx : Within ts ctx) :
    (∃ t rest, ctx.rest = t :: rest ∧ t.type = .comma ∧
      skip .comma ctx = .ok () ctx.next) ∨
    ((∀ t rest, ctx.rest = t :: rest → t.type ≠ .comma) ∧ skip .comma ctx = .ok () ctx) := by
  by_cases hcomma : ∃ t rest, ctx.rest = t :: rest ∧ t.type = .comma
  · obtain ⟨t, rest, hrest, htype⟩ := hcomma
    exact .inl ⟨t, rest, hrest, htype, htype ▸ skip_of_rest hrest⟩
  · have hne : ∀ t rest, ctx.rest = t :: rest → t.type ≠ .comma :=
      fun t rest hrest htype => hcomma ⟨t, rest, hrest, htype⟩
    exact .inr ⟨hne, skip_of_ne hctx (by decide) hne⟩

/-- What a round at a stage, a comma or another token does. -/
theorem stagesRound_of_rest {stages : List CStr} {ctx : ParserContext} {t : Token}
    {rest : List Token} (hrest : ctx.rest = t :: rest) (hbracket : t.type ≠ .rbracket)
    (heof : t.type ≠ .eof) :
    stagesRound stages ctx =
      if t.type = .lbrace then
        (parseBraces 1024 >>= fun stage => skip .comma >>= fun _ =>
          (pure (stages ++ [stage], true) : Parser (List CStr × Bool))) ctx
      else (skip .comma >>= fun _ => (pure (stages, true) : Parser (List CStr × Bool))) ctx := by
  unfold stagesRound
  rw [bind_of_ok (currentType_of_rest hrest), if_neg (by simp [hbracket, heof])]
  split
  · simp
  · simp

theorem StagesStuck.comma {t : Token} {rest : List Token} (htype : t.type = .comma)
    (hstuck : StagesStuck rest) : StagesStuck (t :: rest) := by
  obtain ⟨t', behind, hreach, hne⟩ := hstuck
  exact ⟨t', behind, .comma htype hreach, hne⟩

theorem StagesStuck.stage {t : Token} {rest : List Token} (htype : t.type = .lbrace)
    (hbody : BodyFits 1024 (splitBraces 1 rest).1) (hstuck : StagesStuck (splitBraces 1 rest).2) :
    StagesStuck (t :: rest) := by
  obtain ⟨t', behind, hreach, hne⟩ := hstuck
  exact ⟨t', behind, .stage htype hbody hreach, hne⟩

theorem stagesRound_stop {stages : List CStr} {ctx : ParserContext} {t : Token}
    (ht : currentToken ctx = .ok t ctx) (htype : t.type = .rbracket ∨ t.type = .eof) :
    stagesRound stages ctx = .ok (stages, false) ctx := by
  unfold stagesRound currentType
  rw [bind_assoc, bind_of_ok ht, pure_bind, if_pos htype]
  rfl

/-- Unless the loop gets stuck, a round that goes on has consumed a token. -/
theorem stagesRound_further {stages stages' : List CStr} {ctx after : ParserContext}
    (hreads : Reads ts ctx) (hstuck : ¬ StagesStuck ctx.rest)
    (hok : stagesRound stages ctx = .ok (stages', true) after) :
    ¬ StagesStuck after.rest ∧ ctx.current < after.current := by
  have hctx := hreads.toWithin
  cases hrest : ctx.rest with
  | nil =>
      obtain ⟨t, ht, heof⟩ := currentToken_of_nil hctx hrest
      rw [stagesRound_stop ht (.inr heof)] at hok
      cases hok
  | cons t rest =>
      rw [hrest] at hstuck
      by_cases hstop : t.type = .rbracket ∨ t.type = .eof
      · rw [stagesRound_stop (currentToken_of_rest hrest) hstop] at hok
        cases hok
      · obtain ⟨hbracket, heof⟩ := not_or.mp hstop
        rw [stagesRound_of_rest hrest hbracket heof] at hok
        by_cases hstage : t.type = .lbrace
        · rw [if_pos hstage] at hok
          obtain ⟨v, behind, hbraces, hskip⟩ := ok_of_bind hok
          have hmoves : Moves (parseBraces 1024) ctx := by
            rw [parseBraces_eq]
            exact (moves_consume hreads (by decide)).bind hreads
              (Nat.lt_add_left _ (Nat.lt_succ_self _))
          have hlt := hmoves v behind hbraces
          have hend := parseBraces_end 1024 hctx hrest hstage
          rw [hbraces] at hend
          cases hend with
          | ok _ _ hbody hbehind hwithin =>
              have hnot : ¬ StagesStuck behind.rest := by
                rw [hbehind]
                exact fun h => hstuck (.stage hstage hbody h)
              rcases skip_comma hwithin with ⟨c, tail, hc, hcomma, hskip'⟩ | ⟨_, hskip'⟩
              · rw [bind_of_ok hskip'] at hskip
                cases hskip
                rw [rest_next hc]
                refine ⟨fun h => hnot ?_, Nat.lt_succ_of_lt hlt⟩
                rw [hc]
                exact .comma hcomma h
              · rw [bind_of_ok hskip'] at hskip
                cases hskip
                exact ⟨hnot, hlt⟩
        · rw [if_neg hstage] at hok
          rcases skip_comma hctx with ⟨c, tail, hc, hcomma, hskip⟩ | ⟨hne, hskip⟩
          · rw [bind_of_ok hskip] at hok
            cases hok
            rw [rest_next hc]
            rw [hrest] at hc
            cases hc
            exact ⟨fun h => hstuck (.comma hcomma h), Nat.lt_succ_self _⟩
          · exact absurd ⟨t, rest, .here _, hbracket, heof, hstage, hne t rest hrest⟩ hstuck

instance endsStagesRound (room : Nat) (stages : List CStr) :
    Ends false ts room (stagesRound stages) := by
  unfold stagesRound
  dsimp only
  infer_instance

theorem good_stages {fuel : Nat} {stages : List CStr} {ctx : ParserContext}
    (hreads : Reads ts ctx) (hstuck : ¬ StagesStuck ctx.rest)
    (hfuel : ts.tokens.length < ctx.current + fuel) :
    (iterate stagesRound fuel stages ctx).Good false ts ctx := by
  induction fuel generalizing stages ctx with
  | zero =>
      have hcurrent := hreads.current
      omega
  | succ fuel ih =>
      have hround := (endsStagesRound (fuel + 1) stages).good ctx hreads hfuel
      refine hround.bind ?_
      rintro ⟨stages', more⟩ after hok hafter hle
      cases more with
      | true =>
          obtain ⟨hnext, hlt⟩ := stagesRound_further hreads hstuck hok
          exact ih hafter hnext (by omega)
      | false => exact ⟨hafter, Nat.le_refl _⟩

/-! ## A loop that goes on forever -/

/-- From these tokens on, no number of rounds is enough. -/
def StagesRun (ts : TokenStream) (rest : List Token) : Prop :=
  ∀ ctx fuel stages, Within ts ctx → ctx.rest = rest →
    iterate stagesRound fuel stages ctx = .running

theorem stagesRun_here {t : Token} {behind : List Token} (hbracket : t.type ≠ .rbracket)
    (heof : t.type ≠ .eof) (hbrace : t.type ≠ .lbrace) (hcomma : t.type ≠ .comma) :
    StagesRun ts (t :: behind) := by
  intro ctx fuel stages hctx hrest
  induction fuel with
  | zero => rfl
  | succ fuel ih =>
      have hskip : skip .comma ctx = .ok () ctx := by
        refine skip_of_ne hctx (by decide) fun t' rest' hrest' => ?_
        rw [hrest] at hrest'
        cases hrest'
        exact hcomma
      have hround : stagesRound stages ctx = .ok (stages, true) ctx := by
        rw [stagesRound_of_rest hrest hbracket heof, if_neg hbrace, bind_of_ok hskip]
        rfl
      rw [iterate_of_more hround, ih]

/-- From these tokens on, any number of rounds comes to such a result. -/
def StagesEnd (E : Result (List CStr) → Prop) (ts : TokenStream) (rest : List Token) : Prop :=
  ∀ ctx fuel stages, Within ts ctx → ctx.rest = rest → E (iterate stagesRound fuel stages ctx)

section StagesEnd

variable {E : Result (List CStr) → Prop} {t : Token} {rest : List Token}

theorem StagesEnd.comma (hrunning : E .running) (htype : t.type = .comma)
    (hend : StagesEnd E ts rest) : StagesEnd E ts (t :: rest) := by
  intro ctx fuel stages hctx hrest
  cases fuel with
  | zero => exact hrunning
  | succ fuel =>
      have hskip : skip .comma ctx = .ok () ctx.next := htype ▸ skip_of_rest hrest
      have hround : stagesRound stages ctx = .ok (stages, true) ctx.next := by
        rw [stagesRound_of_rest hrest (by simp [htype]) (by simp [htype]),
          if_neg (by simp [htype]), bind_of_ok hskip]
        rfl
      rw [iterate_of_more hround]
      exact hend _ _ _ (hctx.next hrest) (rest_next hrest)

/-- A stage, and with it the comma behind it. -/
theorem StagesEnd.stage (hrunning : E .running) (htype : t.type = .lbrace)
    (hbody : BodyFits 1024 (splitBraces 1 rest).1) (hend : StagesEnd E ts (splitBraces 1 rest).2)
    (hcomma : ∀ c tail, (splitBraces 1 rest).2 = c :: tail → c.type = .comma →
      StagesEnd E ts tail) :
    StagesEnd E ts (t :: rest) := by
  intro ctx fuel stages hctx hrest
  cases fuel with
  | zero => exact hrunning
  | succ fuel =>
      have hround := @stagesRound_of_rest stages ctx t rest hrest (by simp [htype])
        (by simp [htype])
      rw [if_pos htype] at hround
      have hbraces := parseBraces_end 1024 hctx hrest htype
      cases hresult : parseBraces 1024 ctx with
      | ok v after =>
          rw [hresult] at hbraces
          cases hbraces with
          | ok _ _ _ hbehind hafter =>
              rw [bind_of_ok hresult] at hround
              rcases skip_comma hafter with ⟨c, tail, hc, hctype, hskip⟩ | ⟨_, hskip⟩
              · rw [bind_of_ok hskip] at hround
                rw [iterate_of_more hround]
                exact hcomma c tail (hbehind ▸ hc) hctype _ _ _ (hafter.next hc) (rest_next hc)
              · rw [bind_of_ok hskip] at hround
                rw [iterate_of_more hround]
                exact hend _ _ _ hafter hbehind
      | undefined =>
          rw [hresult] at hbraces
          cases hbraces with
          | undefined hnot => exact absurd hbody hnot
      | running =>
          rw [bind_of_running hresult] at hround
          have hloop : iterate stagesRound (fuel + 1) stages ctx = .running :=
            bind_of_running hround
          rw [hloop]
          exact hrunning
      | null =>
          rw [hresult] at hbraces
          cases hbraces
      | exit =>
          rw [hresult] at hbraces
          cases hbraces

/-- Whole stages and commas lead to what the tokens behind them lead to. -/
theorem StagesEnd.of_reach {reached : List Token} (hrunning : E .running)
    (hreach : StagesReach rest reached) (hend : StagesEnd E ts reached)
    (hfirst : ∀ c tail, reached = c :: tail → c.type ≠ .comma) :
    StagesEnd E ts rest ∧
      ∀ c tail, rest = c :: tail → c.type = .comma → StagesEnd E ts tail := by
  induction hreach with
  | here rest => exact ⟨hend, fun c tail heq hc => absurd hc (hfirst c tail heq)⟩
  | comma htype _ ih =>
      refine ⟨.comma hrunning htype (ih hend hfirst).1, ?_⟩
      rintro c tail heq _
      cases heq
      exact (ih hend hfirst).1
  | stage htype hbody _ ih =>
      refine ⟨.stage hrunning htype hbody (ih hend hfirst).1 (ih hend hfirst).2, ?_⟩
      rintro c tail heq hc
      cases heq
      rw [htype] at hc
      cases hc

end StagesEnd

theorem stagesRun_of_stuck {rest : List Token} (hstuck : StagesStuck rest) : StagesRun ts rest := by
  obtain ⟨t, behind, hreach, hbracket, heof, hbrace, hcomma⟩ := hstuck
  have hhere : StagesEnd (· = .running) ts (t :: behind) :=
    stagesRun_here hbracket heof hbrace hcomma
  refine (@StagesEnd.of_reach ts (· = .running) rest _ rfl hreach hhere ?_).1
  rintro c tail heq
  cases heq
  exact hcomma

/-! ## Whole statements -/

/-- The query is an AGGREGATE whose list of stages the loop gets stuck in. -/
def AggregateStuck (tokens : List Token) : Prop :=
  ∃ aggregate collection bracket stages,
    tokens = aggregate :: collection :: bracket :: stages ∧ aggregate.type = .kwAggregate ∧
      collection.type = .identifier ∧ bracket.type = .lbracket ∧ StagesStuck stages

/-- What has been consumed is the current token. -/
theorem rest_of_consume {type : LexerTokenType} {t : Token} {ctx after : ParserContext}
    (hctx : Within ts ctx) (htype : type ≠ .eof) (hok : consume type ctx = .ok t after) :
    ctx.rest = t :: after.rest ∧ t.type = type ∧ Within ts after := by
  obtain ⟨_, ht, _⟩ := consume_ok hok
  cases hrest : ctx.rest with
  | nil =>
      obtain ⟨t', hcurrent, heof⟩ := currentToken_of_nil hctx hrest
      unfold consume at hok
      rw [bind_of_ok hcurrent, if_neg (by rw [heof]; exact htype.symm)] at hok
      cases hok
  | cons t' rest =>
      unfold consume at hok
      rw [bind_of_ok (currentToken_of_rest hrest)] at hok
      split at hok
      · rw [bind_of_ok (advance_of_rest hrest)] at hok
        cases hok
        exact ⟨by rw [rest_next hrest], ht, hctx.next hrest⟩
      · cases hok

theorem rest_of_consumeText {type : LexerTokenType} {v : CStr} {ctx after : ParserContext}
    (hctx : Within ts ctx) (htype : type ≠ .eof) (hok : consumeText type ctx = .ok v after) :
    ∃ t, ctx.rest = t :: after.rest ∧ t.type = type ∧ Within ts after := by
  obtain ⟨t, behind, hconsume, htext⟩ := ok_of_bind hok
  obtain ⟨_, rfl⟩ := text_ok htext
  exact ⟨t, rest_of_consume hctx htype hconsume⟩

theorem good_parseStages {ctx : ParserContext} (hreads : Reads ts ctx)
    (hstuck : ∀ bracket stages, ctx.rest = bracket :: stages → bracket.type = .lbracket →
      ¬ StagesStuck stages) : (parseStages ctx).Good false ts ctx := by
  have hroom := Nat.lt_add_left ctx.current (Nat.lt_succ_self ts.tokens.length)
  rw [parseStages_eq]
  have hconsume : Ends false ts (ts.tokens.length + 1) (consume .lbracket) := inferInstance
  refine (hconsume.good ctx hreads hroom).bind ?_
  intro t after hok hafter _
  obtain ⟨hrest, htype, _⟩ := rest_of_consume hreads.toWithin (by decide) hok
  have hrounds := hafter.rounds
  have hloop : (loop stagesRound [] after).Good false ts after :=
    good_stages hafter (hstuck t after.rest hrest htype) (by omega)
  refine hloop.bind ?_
  intro stages behind _ hbehind _
  have hend : Ends false ts (ts.tokens.length + 1) (do
      let _ ← consume .rbracket
      return stages) := inferInstance
  exact hend.good behind hbehind (by omega)

/-- AGGREGATE ends unless its loop gets stuck. -/
theorem good_parseAggregate {ctx : ParserContext} (hreads : Reads ts ctx)
    (hstuck : ¬ AggregateStuck ctx.rest) : (parseAggregate ctx).Good false ts ctx := by
  have hroom := Nat.lt_add_left ctx.current (Nat.lt_succ_self ts.tokens.length)
  have hconsume : Ends false ts (ts.tokens.length + 1) (consume .kwAggregate) := inferInstance
  refine (hconsume.good ctx hreads hroom).bind ?_
  intro aggregate ctx₁ haggregate hreads₁ hle₁
  obtain ⟨hrest, htype, hctx₁⟩ := rest_of_consume hreads.toWithin (by decide) haggregate
  have hname : Ends false ts (ts.tokens.length + 1) (consumeText .identifier) := inferInstance
  refine (hname.good ctx₁ hreads₁ (by omega)).bind ?_
  intro collection ctx₂ hcollection hreads₂ hle₂
  obtain ⟨c, hrest₁, hctype, hctx₂⟩ := rest_of_consumeText hctx₁ (by decide) hcollection
  have hcurrent : Ends false ts (ts.tokens.length + 1) currentType := inferInstance
  refine (hcurrent.good ctx₂ hreads₂ (by omega)).bind ?_
  intro type ctx₃ htype₃ hreads₃ hle₃
  obtain ⟨t, _, ht, hret⟩ := ok_of_bind htype₃
  obtain ⟨_, rfl⟩ := currentToken_ok ht
  cases hret
  have hend : ∀ stages : List CStr, Ends false ts (ts.tokens.length + 1) (do
      let _ ← consume .semicolon
      return ASTNode.docAggregate collection stages) := fun _ => inferInstance
  dsimp only
  split
  · refine (good_parseStages hreads₃ ?_).bind fun stages after _ hafter hle =>
      (hend stages).good after hafter (by omega)
    -- stages that the loop gets stuck in are those of the statement
    intro bracket stages hbracket hlbracket hstages
    refine hstuck ⟨aggregate, c, bracket, stages, ?_, htype, hctype, hlbracket, hstages⟩
    rw [hrest, hrest₁, hbracket]
  · exact (hend []).good _ hreads₃ (by omega)

theorem good_parseStatement {ctx : ParserContext} (hreads : Reads ts ctx)
    (hstuck : ¬ AggregateStuck ctx.rest) : (parseStatement ctx).Good false ts ctx := by
  have hroom := Nat.lt_add_left ctx.current (Nat.lt_succ_self ts.tokens.length)
  obtain ⟨t, ht, hmem, _⟩ := currentToken_eq hreads.toWithin
  unfold parseStatement
  rw [bind_of_ok ht]
  by_cases haggregate : t.type = .kwAggregate
  · have hparse : parseFrom t = parseAggregate := by
      unfold parseFrom
      rw [haggregate]
    rw [hparse]
    exact good_parseAggregate hreads hstuck
  · exact (endsFrom_of_ne hmem haggregate).good ctx hreads hroom

theorem parseStages_of_stuck {ctx : ParserContext} {bracket : Token} {stages : List Token}
    (hctx : Within ts ctx) (hrest : ctx.rest = bracket :: stages) (htype : bracket.type = .lbracket)
    (hstuck : StagesStuck stages) : parseStages ctx = .running := by
  have hconsume : consume .lbracket ctx = .ok bracket ctx.next := htype ▸ consume_of_rest hrest
  have hrun : StagesRun ts stages := stagesRun_of_stuck hstuck
  rw [parseStages_eq, bind_of_ok hconsume]
  exact bind_of_running (hrun _ _ _ (hctx.next hrest) (rest_next hrest))

theorem consumeText_of_rest {ctx : ParserContext} {t : Token} {rest : List Token} {v : CStr}
    (hrest : ctx.rest = t :: rest) (hv : t.value = some v) :
    consumeText t.type ctx = .ok v ctx.next := by
  unfold consumeText
  rw [bind_of_ok (consume_of_rest hrest)]
  unfold text
  rw [hv]
  rfl

/-- A stuck loop is still running after any number of rounds. -/
theorem parseStatement_of_stuck {ctx : ParserContext} (hctx : Within ts ctx)
    (hstuck : AggregateStuck ctx.rest) : parseStatement ctx = .running := by
  obtain ⟨aggregate, collection, bracket, stages, hrest, htype, hcollection, hbracket, hstages⟩ :=
    hstuck
  have hctx₁ := hctx.next hrest
  have hrest₁ := rest_next hrest
  have hctx₂ := hctx₁.next hrest₁
  have hrest₂ := rest_next hrest₁
  have hmem : collection ∈ ts.tokens := by
    rw [← hctx₁.tokens]
    exact List.mem_of_mem_drop (hrest₁ ▸ List.mem_cons_self)
  obtain ⟨v, hv⟩ := Option.isSome_iff_exists.mp
    (ts.texts collection hmem (by rw [hcollection]; decide))
  have hparse : parseFrom aggregate = parseAggregate := by
    unfold parseFrom
    rw [htype]
  have hconsume : consume .kwAggregate ctx = .ok aggregate ctx.next := htype ▸ consume_of_rest hrest
  have hname : consumeText .identifier ctx.next = .ok v ctx.next.next :=
    hcollection ▸ consumeText_of_rest hrest₁ hv
  have hcurrent : currentType ctx.next.next = .ok .lbracket ctx.next.next :=
    hbracket ▸ currentType_of_rest hrest₂
  unfold parseStatement
  rw [bind_of_ok (currentToken_of_rest hrest), hparse]
  unfold parseAggregate
  rw [bind_of_ok hconsume, bind_of_ok hname, bind_of_ok hcurrent]
  exact bind_of_running (parseStages_of_stuck hctx₂ hrest₂ hbracket hstages)

/-- The parse of a query ends, with enough rounds for its loops, unless the query is an AGGREGATE
whose list of stages comes to a token that is neither a stage nor a comma nor the end of the
list. -/
theorem parse_ends_iff (query : CStr) :
    (∃ rounds, parseWithin rounds (tokenize query) ≠ .running) ↔
      ¬ AggregateStuck (tokenize query) := by
  have hstart : ∀ rounds, Within (tokenStream query)
      { tokens := tokenize query, current := 0, rounds := rounds } :=
    fun rounds => ⟨rfl, Nat.zero_le _⟩
  constructor
  · rintro ⟨rounds, hends⟩ hstuck
    exact hends (parseStatement_of_stuck (hstart rounds) hstuck)
  · intro hnot
    refine ⟨(tokenize query).length + 1, ?_⟩
    have hreads : Reads (tokenStream query)
        { tokens := tokenize query, current := 0, rounds := (tokenize query).length + 1 } :=
      ⟨hstart _, Nat.lt_succ_self _⟩
    have hgood := good_parseStatement hreads hnot
    intro hrunning
    unfold parseWithin at hrunning
    rw [hrunning] at hgood
    exact hgood

/-- `AGGREGATE c [ x ];` -/
def stuckQuery : CStr :=
  CStr.lit "AGGREGATE c [ x ];"

/-- The parser never gets past the `x`. -/
theorem stuckQuery_never_ends :
    ¬ ∃ rounds, parseWithin rounds (tokenize stuckQuery) ≠ .running := by
  rintro ⟨rounds, hends⟩
  apply hends
  have htokens : tokenize stuckQuery =
      [{ type := .kwAggregate, value := none, line := 1 },
        { type := .identifier, value := some (CStr.lit "c"), line := 1 },
        { type := .lbracket, value := some (CStr.lit "["), line := 1 },
        { type := .identifier, value := some (CStr.lit "x"), line := 1 },
        { type := .rbracket, value := some (CStr.lit "]"), line := 1 },
        { type := .semicolon, value := some (CStr.lit ";"), line := 1 },
        { type := .eof, value := none, line := 1 }] := by
    decide +kernel
  have hctx : Within (tokenStream stuckQuery)
      { tokens := tokenize stuckQuery, current := 0, rounds := rounds } :=
    ⟨rfl, Nat.zero_le _⟩
  refine parseStatement_of_stuck hctx ⟨_, _, _, _, htokens, rfl, rfl, rfl, ?_⟩
  exact ⟨_, _, .here _, by decide, by decide, by decide, by decide⟩

end Sql
end InventixDB
