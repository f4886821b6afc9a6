import InventixDB.Lib.Runs
import InventixDB.Server.Queries
import Mathlib.Data.List.FinRange
import Mathlib.Logic.Function.Basic
import Mathlib.Tactic.SplitIfs

/-!
# PlanCache — the plans EXPLAIN gets from the optimizer

`optimizer_optimize` looks a plan up by the hash of a query text that is the same for every
statement, and keeps the plan it returns in the cache.  The server frees what it gets.
-/

namespace InventixDB
namespace Server

open Lib
open Sql
open Storage

/-! ## Plans -/

/-- The nodes `optimizer_optimize` builds, without their costs. -/
inductive OptPlanNode
  | seqScan (tableName : CStr)
  | project (child : OptPlanNode) (outputCols : List CStr)
  | sort (child : OptPlanNode) (sortKeys : List (CStr × Bool))
  | limit (child : OptPlanNode) (limitCount : Int)
  | result
  deriving DecidableEq

structure OptQueryPlan where
  root : OptPlanNode
  queryText : CStr
  planHash : CStr
  isCached : Bool
  cacheHits : Nat
  deriving DecidableEq

/-- A WHERE clause adds no node. -/
def buildPlan : ASTNode → OptPlanNode
  | .select stmt =>
      let scan := OptPlanNode.seqScan stmt.clauses.tableName
      let scan :=
        match stmt.clauses.columns with
        | [] => scan
        | column :: rest =>
            if column.value = CStr.lit "*" then scan
            else scan.project ((column :: rest).map SelectColumn.value)
      let scan :=
        if stmt.clauses.orderColumns = [] then scan else scan.sort stmt.clauses.orderColumns
      if stmt.clauses.limit > 0 then scan.limit stmt.clauses.limit else scan
  | _ => .result

/-! ## The optimizer -/

/-- `PLAN_CACHE_MAX` -/
abbrev planCacheMax : Nat := 256

/-- `hash_string` -/
def hashString (str : CStr) : UInt32 :=
  str.val.foldl (fun hash c => ((hash <<< 5) + hash) + c.toInt8.toInt32.toUInt32) 5381

/-- A digit of `%x`. -/
def hexDigit (d : Nat) : UInt8 :=
  if d < 10 then UInt8.ofNat (48 + d) else UInt8.ofNat (87 + d)

/-- The hash of a text as `%08x`. -/
def computeQueryHash (query : CStr) : CStr :=
  CStr.ofBytes ((List.range 8).reverse.map fun i =>
    hexDigit ((hashString query).toNat / 16 ^ i % 16))

/-- A pointer to a plan: no two plans ever get the same one. -/
abbrev PlanId := Nat

structure PlanCacheEntry where
  queryHash : CStr
  plan : PlanId
  hits : Nat
  deriving DecidableEq

/-- `heap` has what each pointer points to, and nothing for a plan that has been freed. -/
structure Optimizer where
  heap : List (Option OptQueryPlan)
  planCache : Fin planCacheMax → List PlanCacheEntry

namespace Optimizer

def init : Optimizer where
  heap := []
  planCache := fun _ => []

def bucket (queryHash : CStr) : Fin planCacheMax :=
  Fin.ofNat planCacheMax (hashString queryHash).toNat

/-- What a pointer points to; a freed plan must not be looked at. -/
def deref (opt : Optimizer) (plan : PlanId) : Option OptQueryPlan :=
  opt.heap[plan]?.join

/-- `none` where the plan of the entry has been freed: its `is_cached` is written. -/
def cacheGet (opt : Optimizer) (queryHash : CStr) : Option (Option PlanId × Optimizer) :=
  let entries := opt.planCache (bucket queryHash)
  match entries.find? fun entry => entry.queryHash = queryHash with
  | none => some (none, opt)
  | some entry =>
      (opt.deref entry.plan).map fun plan =>
        (some entry.plan,
          { heap := opt.heap.set entry.plan
              (some { plan with isCached := true, cacheHits := entry.hits + 1 })
            planCache := Function.update opt.planCache (bucket queryHash)
              (entries.modify (entries.findIdx fun entry => entry.queryHash = queryHash)
                fun entry => { entry with hits := entry.hits + 1 }) })

def cachePut (opt : Optimizer) (queryHash : CStr) (plan : PlanId) : Optimizer :=
  let entries := opt.planCache (bucket queryHash)
  if entries.any fun entry => entry.queryHash = queryHash then opt
  else
    { opt with
      planCache := Function.update opt.planCache (bucket queryHash)
        ({ queryHash := queryHash, plan := plan, hits := 0 } :: entries) }

/-- `optimizer_plan_free`; `none` for a plan that has been freed before. -/
def planFree (opt : Optimizer) (plan : PlanId) : Option Optimizer :=
  (opt.deref plan).map fun _ => { opt with heap := opt.heap.set plan none }

/-- The table's name only appears in the log. -/
def cacheInvalidate (opt : Optimizer) : Option Optimizer :=
  (((List.finRange planCacheMax).flatMap opt.planCache).foldlM
    (fun (opt : Optimizer) entry => opt.planFree entry.plan) opt).map
      fun opt => { opt with planCache := fun _ => [] }

/-- The text a plan is cached under. -/
def queryText : CStr :=
  CStr.lit "SELECT ..."

/-- `optimizer_optimize` -/
def optimize (opt : Optimizer) (ast : ASTNode) : Option (PlanId × Optimizer) :=
  (opt.cacheGet (computeQueryHash queryText)).map fun
    | (some cached, opt) => (cached, opt)
    | (none, opt) =>
        let plan : OptQueryPlan :=
          { root := buildPlan ast
            queryText := queryText
            planHash := computeQueryHash queryText
            isCached := false
            cacheHits := 0 }
        (opt.heap.length,
          { opt with heap := opt.heap ++ [some plan] }.cachePut plan.planHash opt.heap.length)

end Optimizer

/-! ## EXPLAIN -/

/-- What a query makes the server plan: `ended` where the server does not get that far. -/
inductive Explained
  | planned (ast : ASTNode)
  | nothing
  | ended

/-- The branch of `execute_client_query` for EXPLAIN. -/
def explained (query : CStr) : Explained :=
  let tokens := tokenize query
  match commandWord tokens with
  | none => .nothing
  | some cmdType =>
      if isCommand ["EXPLAIN", "SAMJHAO"] cmdType then
        match tokens[1]? with
        | none => .nothing
        | some t =>
            match t.value with
            | none => .ended
            | some v =>
                let queryStart := if isCommand ["ANALYZE"] v then 2 else 1
                if tokens.length ≤ queryStart then .nothing
                else
                  match textBehind (tokens.take queryStart) (some query.val) with
                  | none => .ended
                  | some none => .nothing
                  | some (some []) => .nothing
                  | some (some text) =>
                      match parse (tokenize (CStr.ofBytes text)) with
                      | .ok ast _ => .planned ast
                      | .null => .nothing
                      | _ => .ended
      else .nothing

inductive PlanCall
  | explain (query : CStr)
  | invalidate

namespace Optimizer

/-- The server prints the plan and frees it. -/
def explain (opt : Optimizer) (ast : ASTNode) : Option Optimizer :=
  (opt.optimize ast).bind fun (plan, opt) =>
    (opt.deref plan).bind fun _ => opt.planFree plan

/-- `none` for what is undefined, and where the server has ended. -/
def step (opt : Optimizer) : PlanCall → Option Optimizer
  | .explain query =>
      match explained query with
      | .planned ast => opt.explain ast
      | .nothing => some opt
      | .ended => none
  | .invalidate => opt.cacheInvalidate

/-- The plan is the one of the statement and has not been freed, and no invalidation frees a plan
again. -/
def Serves (opt : Optimizer) : PlanCall → Prop
  | .explain query =>
      match explained query with
      | .planned ast =>
          ∃ plan after, opt.optimize ast = some (plan, after) ∧
            (after.deref plan).map OptQueryPlan.root = some (buildPlan ast)
      | _ => True
  | .invalidate => (opt.cacheInvalidate).isSome

end Optimizer

/-- No call reaches the cache: a query that ends the server is the last one. -/
def Unused : List PlanCall → Prop
  | [] => True
  | .explain query :: calls =>
      match explained query with
      | .planned _ => False
      | .nothing => Unused calls
      | .ended => True
  | .invalidate :: _ => False

/-- One EXPLAIN at most gets a plan, and no invalidation comes after it. -/
def PlansOnce : List PlanCall → Prop
  | [] => True
  | .explain query :: calls =>
      match explained query with
      | .planned _ => Unused calls
      | .nothing => PlansOnce calls
      | .ended => True
  | .invalidate :: calls => PlansOnce calls

namespace Optimizer

/-! ## The first plan -/

/-- No plan is cached. -/
def Empty (opt : Optimizer) : Prop :=
  opt.planCache = fun _ => []

/-- One plan is cached, and it has been freed. -/
def Stale (opt : Optimizer) : Prop :=
  ∃ plan, opt.deref plan = none ∧
    opt.planCache = Function.update (fun _ => []) (bucket (computeQueryHash queryText))
      [{ queryHash := computeQueryHash queryText, plan := plan, hits := 0 }]

theorem empty_init : init.Empty := rfl

theorem cacheGet_of_empty {opt : Optimizer} (hempty : opt.Empty) (queryHash : CStr) :
    opt.cacheGet queryHash = some (none, opt) := by
  unfold cacheGet
  rw [hempty]
  rfl

theorem planCache_cachePut_of_empty {opt : Optimizer} (hempty : opt.Empty) (queryHash : CStr)
    (plan : PlanId) : (opt.cachePut queryHash plan).planCache =
      Function.update (fun _ => []) (bucket queryHash)
        [{ queryHash := queryHash, plan := plan, hits := 0 }] := by
  unfold cachePut
  rw [hempty]
  rfl

theorem heap_cachePut (opt : Optimizer) (queryHash : CStr) (plan : PlanId) :
    (opt.cachePut queryHash plan).heap = opt.heap := by
  unfold cachePut
  dsimp only
  split_ifs <;> rfl

/-- The first plan is built, and cached. -/
theorem optimize_of_empty {opt : Optimizer} (hempty : opt.Empty) (ast : ASTNode) :
    ∃ after, opt.optimize ast = some (opt.heap.length, after) ∧
      (after.deref opt.heap.length).map OptQueryPlan.root = some (buildPlan ast) ∧
      after.planCache = Function.update (fun _ => []) (bucket (computeQueryHash queryText))
        [{ queryHash := computeQueryHash queryText, plan := opt.heap.length, hits := 0 }] := by
  unfold optimize
  rw [cacheGet_of_empty hempty]
  refine ⟨_, rfl, ?_, ?_⟩
  · unfold deref
    rw [heap_cachePut]
    simp
  · have hempty' : ∀ heap, Empty { opt with heap := heap } := fun _ => hempty
    exact planCache_cachePut_of_empty (hempty' _) _ _

theorem deref_planFree {opt after : Optimizer} {plan : PlanId}
    (hfree : opt.planFree plan = some after) : after.deref plan = none := by
  obtain ⟨_, _, rfl⟩ := Option.map_eq_some_iff.mp hfree
  unfold deref
  rw [List.getElem?_set, if_pos rfl]
  split_ifs <;> rfl

/-- The server frees the plan that is cached. -/
theorem explain_of_empty {opt : Optimizer} (hempty : opt.Empty) (ast : ASTNode) :
    ∃ after, opt.explain ast = some after ∧ after.Stale := by
  obtain ⟨built, hoptimize, hroot, hcache⟩ := optimize_of_empty hempty ast
  obtain ⟨plan, hderef, _⟩ := Option.map_eq_some_iff.mp hroot
  have hfree : built.planFree opt.heap.length =
      some { built with heap := built.heap.set opt.heap.length none } := by
    unfold planFree
    rw [hderef]
    rfl
  refine ⟨_, ?_, opt.heap.length, deref_planFree hfree, hcache⟩
  unfold explain
  rw [hoptimize, Option.bind_some]
  dsimp only
  rw [hderef, Option.bind_some, hfree]

/-! ## The second plan -/

/-- The lookup writes to the plan that has been freed. -/
theorem optimize_of_stale {opt : Optimizer} (hstale : opt.Stale) (ast : ASTNode) :
    opt.optimize ast = none := by
  obtain ⟨plan, hfreed, hcache⟩ := hstale
  unfold optimize cacheGet
  rw [hcache, Function.update_self]
  simp [hfreed]

/-- What has been freed stays freed. -/
theorem deref_planFree_of_freed {opt after : Optimizer} {plan other : PlanId}
    (hfree : opt.planFree other = some after) (hfreed : opt.deref plan = none) :
    after.deref plan = none := by
  obtain ⟨_, _, rfl⟩ := Option.map_eq_some_iff.mp hfree
  unfold deref at hfreed ⊢
  rw [List.getElem?_set]
  split_ifs
  · rfl
  · rfl
  · exact hfreed

theorem foldlM_planFree_of_freed {entries : List PlanCacheEntry} {opt : Optimizer}
    {entry : PlanCacheEntry} (hmem : entry ∈ entries) (hfreed : opt.deref entry.plan = none) :
    entries.foldlM (fun (opt : Optimizer) entry => opt.planFree entry.plan) opt = none := by
  induction entries generalizing opt with
  | nil => cases hmem
  | cons first rest ih =>
      rw [List.foldlM_cons]
      cases hfree : opt.planFree first.plan with
      | none => rfl
      | some after =>
          rcases List.mem_cons.mp hmem with rfl | hrest
          · unfold planFree at hfree
            rw [hfreed] at hfree
            cases hfree
          · exact ih hrest (deref_planFree_of_freed hfree hfreed)

/-- An invalidation frees it once more. -/
theorem cacheInvalidate_of_stale {opt : Optimizer} (hstale : opt.Stale) :
    opt.cacheInvalidate = none := by
  obtain ⟨plan, hfreed, hcache⟩ := hstale
  unfold cacheInvalidate
  rw [foldlM_planFree_of_freed (List.mem_flatMap.mpr
    ⟨bucket (computeQueryHash queryText), List.mem_finRange _, ?_⟩) ?_]
  · rfl
  · exact { queryHash := computeQueryHash queryText, plan := plan, hits := 0 }
  · rw [hcache, Function.update_self]
    exact List.mem_singleton_self _
  · exact hfreed

theorem cacheInvalidate_of_empty {opt : Optimizer} (hempty : opt.Empty) :
    ∃ after, opt.cacheInvalidate = some after ∧ after.Empty := by
  unfold cacheInvalidate
  have hnone : (List.finRange planCacheMax).flatMap opt.planCache = [] := by
    rw [hempty]
    simp
  rw [hnone]
  exact ⟨_, rfl, rfl⟩

/-! ## The cache over whole runs -/

theorem serves_iff_unused {opt : Optimizer} {calls : List PlanCall} (hstale : opt.Stale) :
    StepsFit step Serves opt calls ↔ Unused calls := by
  induction calls with
  | nil => exact Iff.rfl
  | cons call calls ih =>
      cases call with
      | explain query =>
          cases hexplained : explained query with
          | planned ast =>
              simp [StepsFit, Unused, Serves, hexplained, optimize_of_stale hstale]
          | nothing => simpa [StepsFit, Unused, Serves, step, hexplained] using ih
          | ended => simp [StepsFit, Unused, Serves, step, hexplained]
      | invalidate => simp [StepsFit, Unused, Serves, cacheInvalidate_of_stale hstale]

theorem serves_iff_of_empty {opt : Optimizer} {calls : List PlanCall} (hempty : opt.Empty) :
    StepsFit step Serves opt calls ↔ PlansOnce calls := by
  induction calls generalizing opt with
  | nil => exact Iff.rfl
  | cons call calls ih =>
      cases call with
      | explain query =>
          cases hexplained : explained query with
          | planned ast =>
              obtain ⟨built, hoptimize, hroot, _⟩ := optimize_of_empty hempty ast
              obtain ⟨after, hexplain, hstale⟩ := explain_of_empty hempty ast
              have hserves : opt.Serves (.explain query) := by
                simp only [Serves, hexplained]
                exact ⟨_, built, hoptimize, hroot⟩
              have hstep : opt.step (.explain query) = some after := by
                simp only [step, hexplained, hexplain]
              simp [StepsFit, PlansOnce, hexplained, hserves, hstep, serves_iff_unused hstale]
          | nothing => simpa [StepsFit, PlansOnce, Serves, step, hexplained] using ih hempty
          | ended => simp [StepsFit, PlansOnce, Serves, step, hexplained]
      | invalidate =>
          obtain ⟨after, hinvalidate, hafter⟩ := cacheInvalidate_of_empty hempty
          simp [StepsFit, PlansOnce, Serves, step, hinvalidate, ih hafter]

/-- From its start on, the optimizer returns every statement its own plan, and frees no plan twice,
exactly if it plans one statement at most, and no invalidation comes after that. -/
theorem plans_served_iff (calls : List PlanCall) :
    StepsFit step Serves init calls ↔ PlansOnce calls :=
  serves_iff_of_empty empty_init

/-- The first token is the string `EXPLAIN`, and the word the server looks for stands behind it. -/
def explainQuery (tableName : String) : CStr :=
  CStr.lit "'EXPL" ++ CStr.ofBytes [92] ++ CStr.lit "AIN' x EXPLAIN SELECT * FROM " ++
    CStr.lit tableName

/-- The plan a query leads to. -/
def plannedRoot (query : CStr) : Option OptPlanNode :=
  match explained query with
  | .planned ast => some (buildPlan ast)
  | _ => none

theorem explained_of_plannedRoot {query : CStr} {root : OptPlanNode}
    (hroot : plannedRoot query = some root) :
    ∃ ast, explained query = .planned ast ∧ buildPlan ast = root := by
  unfold plannedRoot at hroot
  cases hexplained : explained query with
  | planned ast =>
      rw [hexplained] at hroot
      exact ⟨ast, rfl, Option.some.inj hroot⟩
  | nothing =>
      rw [hexplained] at hroot
      cases hroot
  | ended =>
      rw [hexplained] at hroot
      cases hroot

/-- The second EXPLAIN gets the plan of the first, which has been freed. -/
theorem second_explain_gets_freed_plan :
    plannedRoot (explainQuery "t;") = some (.seqScan (CStr.lit "t")) ∧
      plannedRoot (explainQuery "u;") = some (.seqScan (CStr.lit "u")) ∧
      (∃ opt, init.step (.explain (explainQuery "t;")) = some opt ∧
        ∀ ast, opt.optimize ast = none) ∧
      ¬ StepsFit step Serves init
        [.explain (explainQuery "t;"), .explain (explainQuery "u;")] := by
  have hfirst : plannedRoot (explainQuery "t;") = some (.seqScan (CStr.lit "t")) := by
    decide +kernel
  have hsecond : plannedRoot (explainQuery "u;") = some (.seqScan (CStr.lit "u")) := by
    decide +kernel
  obtain ⟨first, hfirst', _⟩ := explained_of_plannedRoot hfirst
  obtain ⟨second, hsecond', _⟩ := explained_of_plannedRoot hsecond
  have ⟨opt, hexplain, hstale⟩ : ∃ after, init.explain first = some after ∧ after.Stale :=
    explain_of_empty empty_init first
  have hstep : init.step (.explain (explainQuery "t;")) = some opt := by
    simp only [step, hfirst', hexplain]
  refine ⟨hfirst, hsecond, ⟨opt, hstep, optimize_of_stale hstale⟩, fun hserves => ?_⟩
  have hunserved := (hserves.2 opt hstep).1
  simp only [Serves, hsecond'] at hunserved
  obtain ⟨_, _, hoptimize, _⟩ := hunserved
  rw [optimize_of_stale hstale] at hoptimize
  cases hoptimize

end Optimizer

end Server
end InventixDB
