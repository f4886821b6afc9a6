import InventixDB.Nosql.Pipeline
import InventixDB.Sql.Crashes

/-!
# Aggregation — the AGGREGATE command

`parse_aggregate` keeps the text of each stage with its braces, and `nosql_aggregate` looks for a
number at the start of that text: the command skips nothing, and a limit of it lets nothing through.
-/

namespace InventixDB
namespace Nosql

open Lib
open Storage
open Sql
open InventixDB.Sql.Parser

/-! ## The command -/

/-- The type that `execute_nosql_aggregate` finds for the text of a stage. -/
def stageType (stageJson : CStr) : PipelineStageType :=
  if CStr.contains (CStr.lit "$match") stageJson then .stageMatch
  else if CStr.contains (CStr.lit "$project") stageJson then .stageProject
  else if CStr.contains (CStr.lit "$group") stageJson then .stageGroup
  else if CStr.contains (CStr.lit "$sort") stageJson then .stageSort
  else if CStr.contains (CStr.lit "$limit") stageJson then .stageLimit
  else if CStr.contains (CStr.lit "$skip") stageJson then .stageSkip
  else if CStr.contains (CStr.lit "$count") stageJson then .stageCount
  else .stageMatch

def stageOf (stageJson : CStr) : PipelineStage where
  type := stageType stageJson
  jsonSpec := stageJson

/-- What the command prints: a note, or the text of each result. -/
inductive AggregateOutput
  | noResults
  | results (texts : List CStr)

/-- `none` is a list that was freed before it is printed. -/
def executeNosqlAggregate {n : Nat} [NeZero n] (store : KVStore n)
    (currentDb collection : CStr) (pipelineStages : List CStr) (seeds : Nat → Nat → IdSeed)
    (now : UInt64) : Option AggregateOutput :=
  (nosqlAggregate store currentDb collection (pipelineStages.map stageOf) seeds now).map
    fun docs =>
      if docs.isEmpty then .noResults else .results (docs.map Document.jsonData)

/-! ## What the parser leaves -/

section Parser

variable {α : Type} {ctx after : ParserContext}

/-- What each round keeps holds behind a loop. -/
theorem of_loop_ok {I : α → Prop} {body : α → Parser (α × Bool)}
    (hbody : ∀ a ctx r after, I a → body a ctx = .ok r after → I r.1) {a a' : α} (ha : I a)
    (hok : loop body a ctx = .ok a' after) : I a' := by
  have hrounds : ∀ fuel a ctx, I a → iterate body fuel a ctx = .ok a' after → I a' := by
    intro fuel
    induction fuel with
    | zero => exact fun _ _ _ hok => nomatch hok
    | succ fuel ih =>
        intro a ctx ha hok
        obtain ⟨⟨mid, more⟩, ctx₁, hround, hrest⟩ := ok_of_bind hok
        have hmid : I mid := hbody a ctx _ _ ha hround
        cases more with
        | true => exact ih mid ctx₁ hmid hrest
        | false =>
            cases hrest
            exact hmid
  exact hrounds ctx.rounds a ctx ha hok

/-- A text behind an opening brace. -/
def Braced (text : CStr) : Prop :=
  text.val.head? = some 123

theorem Braced.append {text : CStr} (htext : Braced text) (s : CStr) : Braced (text ++ s) := by
  unfold Braced at *
  rw [CStr.val_append, List.head?_append, htext, Option.some_or]

theorem braced_strcat {size : Nat} {buffer s text : CStr} (hbuffer : Braced buffer)
    (hok : strcat size buffer s ctx = .ok text after) : Braced text := by
  unfold strcat at hok
  split at hok
  · cases hok
    exact hbuffer.append s
  · cases hok

theorem braced_parseBraces {size : Nat} {text : CStr}
    (hok : parseBraces size ctx = .ok text after) : Braced text := by
  rw [parseBraces_eq] at hok
  obtain ⟨_, ctx₁, _, hok⟩ := ok_of_bind hok
  obtain ⟨r, ctx₂, hloop, hok⟩ := ok_of_bind hok
  refine braced_strcat ?_ hok
  refine of_loop_ok (I := fun s : CStr × Nat => Braced s.1) ?_ (by rfl) hloop
  intro s ctx r after hs hround
  obtain ⟨t, ctx₁, _, hround⟩ := ok_of_bind hround
  split at hround
  · cases hround
    exact hs
  split at hround
  · obtain ⟨_, _, _, hround⟩ := ok_of_bind hround
    cases hround
    exact hs
  · obtain ⟨value, _, _, hround⟩ := ok_of_bind hround
    obtain ⟨buffer, _, hvalue, hround⟩ := ok_of_bind hround
    obtain ⟨buffer', _, hblank, hround⟩ := ok_of_bind hround
    obtain ⟨_, _, _, hround⟩ := ok_of_bind hround
    cases hround
    exact braced_strcat (braced_strcat hs hvalue) hblank

theorem braced_stagesRound {stages : List CStr} {r : List CStr × Bool}
    (hstages : ∀ text ∈ stages, Braced text) (hok : stagesRound stages ctx = .ok r after) :
    ∀ text ∈ r.1, Braced text := by
  obtain ⟨type, ctx₁, _, hok⟩ := ok_of_bind hok
  split at hok
  · cases hok
    exact hstages
  split at hok
  · obtain ⟨stage, _, hstage, hok⟩ := ok_of_bind hok
    obtain ⟨_, _, hpure, hok⟩ := ok_of_bind hok
    cases hpure
    obtain ⟨_, _, _, hok⟩ := ok_of_bind hok
    cases hok
    intro text htext
    rcases List.mem_append.mp htext with htext | htext
    · exact hstages text htext
    · rw [List.mem_singleton.mp htext]
      exact braced_parseBraces hstage
  · obtain ⟨_, _, hpure, hok⟩ := ok_of_bind hok
    cases hpure
    obtain ⟨_, _, _, hok⟩ := ok_of_bind hok
    cases hok
    exact hstages

/-- The text of each stage of a command starts with its brace. -/
theorem braced_parseAggregate {collection : CStr} {pipelineStages : List CStr}
    (hok : parseAggregate ctx = .ok (.docAggregate collection pipelineStages) after) :
    ∀ text ∈ pipelineStages, Braced text := by
  rw [parseAggregate_eq] at hok
  obtain ⟨_, _, _, hok⟩ := ok_of_bind hok
  obtain ⟨_, _, _, hok⟩ := ok_of_bind hok
  obtain ⟨stages, _, hlist, hok⟩ := ok_of_bind hok
  obtain ⟨_, _, _, hok⟩ := ok_of_bind hok
  cases hok
  obtain ⟨type, _, _, hlist⟩ := ok_of_bind hlist
  split at hlist
  · rw [parseStages_eq] at hlist
    obtain ⟨_, _, _, hlist⟩ := ok_of_bind hlist
    obtain ⟨stages, _, hloop, hlist⟩ := ok_of_bind hlist
    obtain ⟨_, _, _, hlist⟩ := ok_of_bind hlist
    cases hlist
    exact of_loop_ok (fun _ _ _ _ => braced_stagesRound) (by simp) hloop
  · cases hlist
    simp

end Parser

/-! ## What the command does -/

section Command

variable {seeds : Nat → IdSeed} {now : UInt64} {docs : List Document} {pipelineStages : List CStr}

theorem atoi_of_braced {text : CStr} (htext : Braced text) : CStr.atoi text = 0 := by
  unfold Braced at htext
  cases hval : text.val with
  | nil =>
      rw [hval] at htext
      cases htext
  | cons c rest =>
      rw [hval] at htext
      cases htext
      unfold CStr.atoi
      rw [hval]
      rfl

/-- Whether a stage of the command is a limit. -/
def isLimit (text : CStr) : Bool :=
  stageType text == .stageLimit

def isCount (text : CStr) : Bool :=
  stageType text == .stageCount

/-- A stage of the command frees the documents, counts them or leaves them. -/
theorem applyStage_stageOf {seed : IdSeed} {text : CStr} (htext : Braced text)
    (hdocs : docs ≠ []) :
    applyStage seed now (stageOf text) docs =
      if isLimit text then none
      else if isCount text then some [countDoc seed now docs.length]
      else some docs := by
  unfold applyStage stageOf isLimit isCount
  rw [atoi_of_braced htext]
  cases stageType text with
  | stageLimit => simp [limitDocs_eq, hdocs]
  | stageSkip => simp [skipDocs_eq]
  | _ => rfl

/-- What `k` counts, one after another, make of `count` documents. -/
def countedTexts (k : Nat) (docs : List Document) : List CStr :=
  if k = 0 then docs.map Document.jsonData
  else [countJson (if k = 1 then docs.length else 1)]

theorem countedTexts_succ (k : Nat) (seed : IdSeed) (docs : List Document) :
    countedTexts k [countDoc seed now docs.length] = countedTexts (k + 1) docs := by
  unfold countedTexts
  cases k with
  | zero => rfl
  | succ k => simp

theorem runStages_stageOf (hbraced : ∀ text ∈ pipelineStages, Braced text) (hdocs : docs ≠ []) :
    (runStages seeds now (pipelineStages.map stageOf) docs).map (List.map Document.jsonData) =
      if pipelineStages.any isLimit then none
      else some (countedTexts (pipelineStages.countP isCount) docs) := by
  induction pipelineStages generalizing seeds docs with
  | nil => rfl
  | cons text texts ih =>
      rw [List.forall_mem_cons] at hbraced
      rw [List.map_cons, runStages_cons hdocs, applyStage_stageOf hbraced.1 hdocs, List.any_cons]
      by_cases hlimit : isLimit text = true
      · rw [if_pos hlimit, hlimit, Bool.true_or, if_pos rfl]
        rfl
      have hlimit' : isLimit text = false := Bool.not_eq_true _ ▸ hlimit
      rw [if_neg hlimit, hlimit', Bool.false_or]
      -- a count leaves one document, so the next stage meets one too
      by_cases hcount : isCount text = true
      · rw [if_pos hcount, Option.bind_some, ih hbraced.2 (by simp), countedTexts_succ,
          List.countP_cons_of_pos hcount]
      · rw [if_neg hcount, Option.bind_some, ih hbraced.2 hdocs, List.countP_cons_of_neg hcount]

theorem countedTexts_ne_nil (k : Nat) (hdocs : docs ≠ []) : countedTexts k docs ≠ [] := by
  unfold countedTexts
  split
  · simpa using hdocs
  · simp

/-- A command with a limit prints documents that were freed; else it prints them all, or how many
they are, and behind a second count that there is one. -/
theorem executeNosqlAggregate_eq {n : Nat} [NeZero n] (store : KVStore n) (currentDb : CStr)
    {collection : CStr} {ctx after : ParserContext} (seeds : Nat → Nat → IdSeed)
    (hok : parseAggregate ctx = .ok (.docAggregate collection pipelineStages) after) :
    executeNosqlAggregate store currentDb collection pipelineStages seeds now =
      if (nosqlFind store currentDb collection (CStr.lit "\x7b\x7d") (seeds 0) now).isEmpty then
        some .noResults
      else if pipelineStages.any isLimit then none
      else
        some (.results (countedTexts (pipelineStages.countP isCount)
          (nosqlFind store currentDb collection (CStr.lit "\x7b\x7d") (seeds 0) now))) := by
  have hbraced := braced_parseAggregate hok
  unfold executeNosqlAggregate nosqlAggregate
  generalize nosqlFind store currentDb collection (CStr.lit "\x7b\x7d") (seeds 0) now = docs
  cases docs with
  | nil =>
      rw [runStages_nil]
      rfl
  | cons doc docs =>
      have hdocs : doc :: docs ≠ [] := List.cons_ne_nil doc docs
      have hrun := @runStages_stageOf (seeds 1) now (doc :: docs) pipelineStages hbraced hdocs
      have hne := countedTexts_ne_nil (pipelineStages.countP isCount) hdocs
      rw [List.isEmpty_cons, if_neg Bool.false_ne_true]
      cases hstages : runStages (seeds 1) now (pipelineStages.map stageOf) (doc :: docs) with
      | none =>
          rw [hstages] at hrun
          split at hrun
          · next hlimit =>
              rw [if_pos hlimit]
              rfl
          · cases hrun
      | some result =>
          rw [hstages] at hrun
          split at hrun
          · cases hrun
          · next hlimit =>
              -- no stage empties the list, so `No results` is not printed
              have htexts := Option.some_inj.mp hrun
              have hresult : result.isEmpty = false := by
                cases result with
                | nil => exact absurd htexts.symm hne
                | cons doc result => rfl
              rw [if_neg hlimit, Option.map_some, hresult, if_neg Bool.false_ne_true, ← htexts]

/-- `AGGREGATE c [ { "$limit" : 5 } ] ;` -/
def limitContext : ParserContext where
  tokens :=
    [{ type := .kwAggregate, value := none, line := 1 },
      { type := .identifier, value := some (CStr.lit "c"), line := 1 },
      { type := .lbracket, value := some (CStr.lit "["), line := 1 },
      { type := .lbrace, value := some (CStr.lit "\x7b"), line := 1 },
      { type := .string, value := some (CStr.lit "$limit"), line := 1 },
      { type := .colon, value := some (CStr.lit ":"), line := 1 },
      { type := .intLiteral, value := some (CStr.lit "5"), line := 1 },
      { type := .rbrace, value := some (CStr.lit "\x7d"), line := 1 },
      { type := .rbracket, value := some (CStr.lit "]"), line := 1 },
      { type := .semicolon, value := some (CStr.lit ";"), line := 1 },
      { type := .eof, value := none, line := 1 }]
  current := 0

/-- The stages of a command that was parsed. -/
def stagesOf : Result ASTNode → Option (CStr × List CStr × ParserContext)
  | .ok (.docAggregate collection pipelineStages) after => some (collection, pipelineStages, after)
  | .ok _ _ | .null | .exit | .undefined | .running => none

theorem of_stagesOf {r : Result ASTNode} {s : CStr × List CStr × ParserContext}
    (hr : stagesOf r = some s) : r = .ok (.docAggregate s.1 s.2.1) s.2.2 := by
  unfold stagesOf at hr
  split at hr
  · cases hr
    rfl
  all_goals cases hr

theorem limit_prints_freed :
    executeNosqlAggregate oneDocStore (CStr.lit "db") (CStr.lit "c")
      [CStr.lit "\x7b$limit : 5 \x7d"] (fun _ _ => firstSeed) 0 = none := by
  have hparsed : ((stagesOf (parseAggregate limitContext)).map fun s => (s.1, s.2.1)) =
      some (CStr.lit "c", [CStr.lit "\x7b$limit : 5 \x7d"]) := by decide +kernel
  obtain ⟨s, hstages, hs⟩ := Option.map_eq_some_iff.mp hparsed
  have hok := of_stagesOf hstages
  have hcollection : s.1 = CStr.lit "c" := congrArg Prod.fst hs
  have htexts : s.2.1 = [CStr.lit "\x7b$limit : 5 \x7d"] := congrArg Prod.snd hs
  rw [hcollection, htexts] at hok
  refine (executeNosqlAggregate_eq oneDocStore (CStr.lit "db") (fun _ _ => firstSeed) hok).trans ?_
  rw [if_neg (by decide +kernel), if_pos (by decide +kernel)]

end Command

end Nosql
end InventixDB
