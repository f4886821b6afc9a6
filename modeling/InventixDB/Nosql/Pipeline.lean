import InventixDB.Lib.Window
import InventixDB.Nosql.Writes

/-!
# Pipeline — aggregation

`nosql_aggregate` sends the documents of a collection through its stages, one after another.  Skips
and limits leave one stretch of the collection, and a count leaves one document.  A limit that lets
no document through frees the whole list and goes on with it.
-/

namespace InventixDB
namespace Nosql

open Lib
open Storage

variable {α : Type}

/-! ## Stages -/

inductive PipelineStageType
  | stageMatch
  | stageProject
  | stageGroup
  | stageSort
  | stageLimit
  | stageSkip
  | stageUnwind
  | stageLookup
  | stageCount
  | stageAddFields
  | stageOut
  deriving DecidableEq, Repr

structure PipelineStage where
  type : PipelineStageType
  jsonSpec : CStr
  deriving DecidableEq

/-- The loop of `STAGE_LIMIT` behind the documents `kept`; without a `prev` the list is freed and
stays the result. -/
def limitDocs (limit : Int) (kept : List α) : List α → Option (List α)
  | [] => some kept
  | curr :: rest =>
      if limit < kept.length + 1 then
        if kept.isEmpty then none else some kept
      else limitDocs limit (kept ++ [curr]) rest

/-- The loop of `STAGE_SKIP`. -/
def skipDocs (skip : Int) : List α → List α
  | [] => []
  | doc :: docs => if 0 < skip then skipDocs (skip - 1) docs else doc :: docs

def countJson (count : Nat) : CStr :=
  CStr.snprintf 64 (CStr.lit "\x7b\"count\":" ++ CStr.ofInt count ++ CStr.lit "\x7d")

def countDoc (seed : IdSeed) (now : UInt64) (count : Nat) : Document :=
  nosqlDocCreate (countJson count) seed now

/-- One round of the loop of `nosql_aggregate`; `none` is a list that was freed. -/
def applyStage (seed : IdSeed) (now : UInt64) (stage : PipelineStage) (docs : List Document) :
    Option (List Document) :=
  match stage.type with
  | .stageLimit => limitDocs (CStr.atoi stage.jsonSpec) [] docs
  | .stageSkip => some (skipDocs (CStr.atoi stage.jsonSpec) docs)
  | .stageCount => some [countDoc seed now docs.length]
  | _ => some docs

/-- The loop of `nosql_aggregate`, which ends with the documents; `seeds` has the seed of each
stage. -/
def runStages (seeds : Nat → IdSeed) (now : UInt64) :
    List PipelineStage → List Document → Option (List Document)
  | [], docs => some docs
  | stage :: stages, docs =>
      if docs.isEmpty then some docs
      else
        (applyStage (seeds 0) now stage docs).bind
          (runStages (fun i => seeds (i + 1)) now stages)

/-- `seeds 0` has the seeds of the documents, `seeds 1` those of the stages. -/
def nosqlAggregate {n : Nat} [NeZero n] (store : KVStore n) (db collection : CStr)
    (pipeline : List PipelineStage) (seeds : Nat → Nat → IdSeed) (now : UInt64) :
    Option (List Document) :=
  runStages (seeds 1) now pipeline
    (nosqlFind store db collection (CStr.lit "\x7b\x7d") (seeds 0) now)

/-! ## Windows -/

theorem limitDocs_eq (limit : Int) (kept docs : List α) :
    limitDocs limit kept docs =
      if limit ≤ kept.length ∧ kept = [] ∧ docs ≠ [] then none
      else some (kept ++ docs.take (limit - kept.length).toNat) := by
  induction docs generalizing kept with
  | nil => simp [limitDocs]
  | cons curr rest ih =>
      unfold limitDocs
      -- the cut is behind the last document kept; without one the head itself is freed
      by_cases hlimit : limit < kept.length + 1
      · have hzero : (limit - kept.length).toNat = 0 := by omega
        rw [if_pos hlimit, hzero]
        cases kept with
        | nil => simp_all
        | cons doc kept => simp
      · have hnext : (limit - kept.length).toNat = (limit - (kept ++ [curr]).length).toNat + 1 := by
          rw [List.length_append, List.length_singleton]
          omega
        rw [if_neg hlimit, ih, hnext, List.take_succ_cons]
        rw [if_neg (by simp), if_neg (by omega), List.append_assoc, List.singleton_append]

theorem skipDocs_eq (skip : Int) (docs : List α) : skipDocs skip docs = docs.drop skip.toNat := by
  induction docs generalizing skip with
  | nil => simp [skipDocs]
  | cons doc docs ih =>
      unfold skipDocs
      by_cases hskip : 0 < skip
      · have hnext : skip.toNat = (skip - 1).toNat + 1 := by omega
        rw [if_pos hskip, ih, hnext, List.drop_succ_cons]
      · have hzero : skip.toNat = 0 := by omega
        rw [if_neg hskip, hzero, List.drop_zero]

/-- What a stage other than `STAGE_COUNT` shows. -/
def PipelineStage.window (stage : PipelineStage) : Window :=
  match stage.type with
  | .stageLimit => { skip := 0, limit := some (CStr.atoi stage.jsonSpec).toNat }
  | .stageSkip => { skip := (CStr.atoi stage.jsonSpec).toNat, limit := none }
  | _ => Window.all

/-- What stages show, one after another. -/
def windowOf (stages : List PipelineStage) : Window :=
  stages.foldr (fun stage w => stage.window.andThen w) Window.all

/-- A limit that lets nothing through. -/
def PipelineStage.Frees (stage : PipelineStage) : Prop :=
  stage.type = .stageLimit ∧ CStr.atoi stage.jsonSpec ≤ 0

instance (stage : PipelineStage) : Decidable stage.Frees :=
  inferInstanceAs (Decidable (_ ∧ _))

variable {seed : IdSeed} {seeds : Nat → IdSeed} {now : UInt64} {stage : PipelineStage}
  {stages : List PipelineStage} {docs : List Document}

/-- A stage shows its window, or frees the list. -/
theorem applyStage_eq (hstage : stage.type ≠ .stageCount) (hdocs : docs ≠ []) :
    applyStage seed now stage docs =
      if stage.Frees then none else some (stage.window.apply docs) := by
  obtain ⟨type, jsonSpec⟩ := stage
  cases type with
  | stageLimit =>
      simp [applyStage, PipelineStage.Frees, PipelineStage.window, Window.apply, limitDocs_eq,
        hdocs]
  | stageSkip =>
      simp [applyStage, PipelineStage.Frees, PipelineStage.window, Window.apply, skipDocs_eq]
  | stageCount => exact absurd rfl hstage
  | _ => simp [applyStage, PipelineStage.Frees, PipelineStage.window]

/-- A limit that lets nothing through meets documents. -/
def ListFreed (stages : List PipelineStage) (docs : List Document) : Prop :=
  ∃ before stage after, stages = before ++ stage :: after ∧ stage.Frees ∧
    (windowOf before).apply docs ≠ []

theorem listFreed_cons : ListFreed (stage :: stages) docs ↔
    docs ≠ [] ∧ (stage.Frees ∨ ListFreed stages (stage.window.apply docs)) := by
  have happly : ∀ before, (windowOf (stage :: before)).apply docs =
      (windowOf before).apply (stage.window.apply docs) :=
    fun before => Window.apply_andThen stage.window (windowOf before) docs
  constructor
  · rintro ⟨before, stage', after, heq, hfrees, hmeets⟩
    have hdocs : docs ≠ [] := by
      rintro rfl
      exact hmeets (Window.apply_nil _)
    cases before with
    | nil =>
        cases heq
        exact ⟨hdocs, .inl hfrees⟩
    | cons first before =>
        cases heq
        exact ⟨hdocs, .inr ⟨before, stage', after, rfl, hfrees, happly before ▸ hmeets⟩⟩
  · rintro ⟨hdocs, hfrees | ⟨before, stage', after, rfl, hfrees, hmeets⟩⟩
    · exact ⟨[], stage, stages, rfl, hfrees, hdocs⟩
    · exact ⟨stage :: before, stage', after, rfl, hfrees, (happly before).symm ▸ hmeets⟩

theorem not_listFreed_nil : ¬ ListFreed stages [] := by
  rintro ⟨before, _, _, _, _, hmeets⟩
  exact hmeets (Window.apply_nil _)

theorem runStages_nil (seeds : Nat → IdSeed) (stages : List PipelineStage) :
    runStages seeds now stages [] = some [] := by
  cases stages with
  | nil => rfl
  | cons stage stages => rfl

theorem runStages_cons (hdocs : docs ≠ []) :
    runStages seeds now (stage :: stages) docs =
      (applyStage (seeds 0) now stage docs).bind
        (runStages (fun i => seeds (i + 1)) now stages) := by
  have hempty : docs.isEmpty = false := by simp [hdocs]
  rw [runStages, hempty, if_neg Bool.false_ne_true]

/-- Stages without a count leave the window, unless the list is freed. -/
theorem runStages_eq_some_iff (hcount : ∀ stage ∈ stages, stage.type ≠ .stageCount)
    {result : List Document} :
    runStages seeds now stages docs = some result ↔
      ¬ ListFreed stages docs ∧ result = (windowOf stages).apply docs := by
  induction stages generalizing seeds docs with
  | nil =>
      have hnot : ¬ ListFreed [] docs := by
        rintro ⟨before, _, _, heq, _⟩
        simp at heq
      rw [runStages, Option.some_inj]
      exact ⟨fun heq => ⟨hnot, heq.symm⟩, fun h => h.2.symm⟩
  | cons stage stages ih =>
      rw [List.forall_mem_cons] at hcount
      -- the loop ends with the documents, so no later limit is met
      by_cases hdocs : docs = []
      · subst hdocs
        rw [runStages_nil, Option.some_inj, Window.apply_nil]
        exact ⟨fun heq => ⟨not_listFreed_nil, heq.symm⟩, fun h => h.2.symm⟩
      · have happly : (windowOf (stage :: stages)).apply docs =
            (windowOf stages).apply (stage.window.apply docs) :=
          Window.apply_andThen stage.window (windowOf stages) docs
        rw [runStages_cons hdocs, applyStage_eq hcount.1 hdocs, listFreed_cons, happly]
        by_cases hfrees : stage.Frees
        · simp [hfrees, hdocs]
        · rw [if_neg hfrees, Option.bind_some, ih hcount.2]
          simp [hfrees, hdocs]

/-! ## The collection -/

variable {n : Nat} [NeZero n]

/-- Without a count the result is one stretch of the collection, unless a limit that lets nothing
through meets documents. -/
theorem nosqlAggregate_eq_some_iff (store : KVStore n) (db collection : CStr)
    (seeds : Nat → Nat → IdSeed) (hcount : ∀ stage ∈ stages, stage.type ≠ .stageCount)
    (result : List Document) :
    nosqlAggregate store db collection stages seeds now = some result ↔
      ¬ ListFreed stages
          (nosqlFind store db collection (CStr.lit "\x7b\x7d") (seeds 0) now) ∧
        result = (windowOf stages).apply
          (nosqlFind store db collection (CStr.lit "\x7b\x7d") (seeds 0) now) :=
  runStages_eq_some_iff hcount

theorem oneSlot_lt : 1 < 2 ^ 31 := by decide

/-- A store with one document, `{}`. -/
def oneDocStore : KVStore 1 :=
  { (freshStore oneSlot_lt 0 : KVStore 1) with
    entries := fun _ => some
      (makeDocKey (CStr.lit "db") (CStr.lit "c") (CStr.lit "1"),
        { data := [123, 125, 0], type := .json })
    capacity_int := oneSlot_lt }

theorem nosqlAggregate_skip_limit :
    nosqlAggregate oneDocStore (CStr.lit "db") (CStr.lit "c")
        [{ type := .stageSkip, jsonSpec := CStr.lit "1" },
          { type := .stageLimit, jsonSpec := CStr.lit "0" }] (fun _ _ => firstSeed) 0 =
      some [] := by
  refine (nosqlAggregate_eq_some_iff oneDocStore (CStr.lit "db") (CStr.lit "c")
    (fun _ _ => firstSeed) (by decide) []).mpr ⟨?_, by decide +kernel⟩
  rw [listFreed_cons]
  rintro ⟨-, hfrees | hfreed⟩
  · exact absurd hfrees (by decide)
  · have hempty : ∀ docs : List Document, docs.length ≤ 1 →
        ({ type := .stageSkip, jsonSpec := CStr.lit "1" } : PipelineStage).window.apply docs = [] :=
      fun docs hle => List.drop_eq_nil_of_le hle
    rw [hempty _ (by decide +kernel)] at hfreed
    exact not_listFreed_nil hfreed

end Nosql
end InventixDB
