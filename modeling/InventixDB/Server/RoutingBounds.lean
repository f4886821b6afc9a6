import InventixDB.Server.Broadcast
import InventixDB.Server.Config
import InventixDB.Sql.Parser

/-!
# RoutingBounds — what the master divides by, indexes and reads while it routes

The configuration may name 16 workers and none at all, the arrays of the master hold 8.  The WHERE
clause of a lookup is taken for a comparison with a column on its left.
-/

namespace InventixDB
namespace Server

open Storage

/-- `MAX_WORKERS` -/
abbrev maxWorkers : Nat := 8

/-- A configuration that `config_validate` accepts. -/
abbrev ValidConfig := { config : InventixConfig // configValidate config = true }

/-! ## Starting -/

/-- The workers the loops of `dist_init` and `dist_create_pools` reach. -/
def initIndices (workerCount : Int) : List (Fin maxConfigWorkers) :=
  (List.finRange maxConfigWorkers).filter fun i => (i.val : Int) < workerCount ∧ i.val < maxWorkers

/-- `g_worker_count` after `dist_init`. -/
def workerCountOf (config : InventixConfig) : Int :=
  if config.configLoaded then config.distributed.workerCount.toInt else 2

/-- `dist_init`: the entries of `g_workers` that are set. -/
def distInit (config : InventixConfig) : List WorkerNode :=
  if config.configLoaded then
    (initIndices config.distributed.workerCount.toInt).map fun i =>
      { ip := (config.distributed.workers i).ip.toText.cstr
        port := (config.distributed.workers i).port }
  else
    [{ ip := CStr.lit "127.0.0.1", port := 8889 }, { ip := CStr.lit "127.0.0.1", port := 8890 }]

/-! ## Accesses -/

/-- What can go wrong: a division, an index into the arrays of the workers, and a read of
`data.literal.value` of a node. -/
inductive Access
  | modulo (divisor : Int)
  | worker (idx : Nat)
  | literal (node : Sql.Expr)

/-- The node has a value: it is a literal or an identifier. -/
def HasValue : Sql.Expr → Prop
  | .binary _ _ _ => False
  | .literal _ => True
  | .identifier _ => True
  | .subquery _ _ => False

def Access.Safe : Access → Prop
  | .modulo divisor => divisor ≠ 0
  | .worker idx => idx < maxWorkers
  | .literal node => HasValue node

/-- The accesses of `dist_init` and `dist_create_pools`. -/
def initAccesses (config : InventixConfig) : List Access :=
  (List.range (distInit config).length).map .worker ++
    (initIndices (workerCountOf config)).map fun i => .worker i.val

/-- The condition is `id = literal`, as far as the routing looks at it. -/
def isIdLookup (left : Sql.Expr) (op : CStr) : Sql.Expr → Bool
  | .literal _ => literalValue left = CStr.lit "id" ∧ op = CStr.lit "="
  | _ => false

/-- The left operand of the condition, whose value is read. -/
def whereReads : Option Sql.Expr → List Sql.Expr
  | some (.binary left _ _) => [left]
  | _ => []

/-- The condition asks for an id, which is hashed. -/
def whereHashes : Option Sql.Expr → Bool
  | some (.binary left op right) => isIdLookup left op right
  | _ => false

/-- The nodes `dist_route_query` takes for literals. -/
def literalReads : Sql.ASTNode → List Sql.Expr
  | .select stmt => whereReads stmt.whereClause
  | .delete _ whereClause => whereReads whereClause
  | _ => []

/-- `dist_route_query` takes a remainder by the number of workers. -/
def divides : Sql.ASTNode → Bool
  | .select stmt => whereHashes stmt.whereClause
  | .delete _ whereClause => whereHashes whereClause
  | .docInsert _ _ => true
  | .docGet _ (some _) => true
  | .docRemove _ _ => true
  | _ => false

/-- `send_to_worker` refuses an index from `g_worker_count` on, and uses any other. -/
def sendAccesses (workerCount : Nat) : Route → List Access
  | .worker target => if target < workerCount then [.worker target] else []
  | .broadcast => (List.range workerCount).map .worker

/-- The accesses of `dist_route_query`; a division by zero is the last one, and so is an overflow
of the counter. -/
def routeAccesses (workerCount rr : Nat) (node : Sql.ASTNode) : List Access :=
  (literalReads node).map .literal ++ (if divides node then [.modulo workerCount] else []) ++
    if divides node ∧ workerCount = 0 then []
    else
      match distRouteQuery workerCount rr node with
      | some (route, _) => sendAccesses workerCount route
      | none => []

/-- Starting with the configuration and routing the statement is safe. -/
def RoutesSafely (config : InventixConfig) (rr : Nat) (node : Sql.ASTNode) : Prop :=
  ∀ access ∈ initAccesses config ++ routeAccesses (workerCountOf config).toNat rr node, access.Safe

/-! ## Starting is safe -/

theorem lt_of_mem_initIndices {workerCount : Int} {i : Fin maxConfigWorkers}
    (hi : i ∈ initIndices workerCount) : i.val < maxWorkers := by
  have hboth := (List.mem_filter.mp hi).2
  exact (of_decide_eq_true hboth).2

theorem length_initIndices_le (workerCount : Int) :
    (initIndices workerCount).length ≤ maxWorkers := by
  have hnodup : ((initIndices workerCount).map Fin.val).Nodup :=
    ((List.nodup_finRange _).filter _).map Fin.val_injective
  have hsub : (initIndices workerCount).map Fin.val ⊆ List.range maxWorkers := by
    intro n hn
    obtain ⟨i, hi, rfl⟩ := List.mem_map.mp hn
    exact List.mem_range.mpr (lt_of_mem_initIndices hi)
  have hle := (List.subperm_of_subset hnodup hsub).length_le
  rwa [List.length_map, List.length_range] at hle

theorem initAccesses_safe (config : InventixConfig) :
    ∀ access ∈ initAccesses config, access.Safe := by
  intro access haccess
  rcases List.mem_append.mp haccess with hinit | hpools
  · obtain ⟨n, hn, rfl⟩ := List.mem_map.mp hinit
    refine Nat.lt_of_lt_of_le (List.mem_range.mp hn) ?_
    unfold distInit
    split
    · rw [List.length_map]
      exact length_initIndices_le _
    · decide
  · obtain ⟨i, hi, rfl⟩ := List.mem_map.mp hpools
    exact lt_of_mem_initIndices hi

/-! ## When routing is safe -/

/-- The worker a lookup of the id goes to is one of the array. -/
def HashFits (workerCount : Nat) (id : CStr) : Prop :=
  0 < workerCount ∧ hashTarget workerCount id < maxWorkers

/-- A condition with two operands has a value on its left; an id hashes to a worker of the array,
and anything else goes to no more workers than the array has. -/
def WhereFits (workerCount : Nat) : Option Sql.Expr → Prop
  | some (.binary left op (.literal id)) =>
      HasValue left ∧
        if literalValue left = CStr.lit "id" ∧ op = CStr.lit "=" then HashFits workerCount id
        else workerCount ≤ maxWorkers
  | some (.binary left _ _) => HasValue left ∧ workerCount ≤ maxWorkers
  | _ => workerCount ≤ maxWorkers

def RouteFits (workerCount rr : Nat) : Sql.ASTNode → Prop
  | .insert _ rows => rows = [] → workerCount ≤ maxWorkers
  | .select stmt => WhereFits workerCount stmt.whereClause
  | .delete _ whereClause => WhereFits workerCount whereClause
  | .docInsert _ _ => 0 < workerCount ∧ (rr + 1 < 2 ^ 31 → rr % workerCount < maxWorkers)
  | .docGet _ (some docId) => HashFits workerCount docId
  | .docRemove _ docId => HashFits workerCount docId
  | _ => workerCount ≤ maxWorkers

theorem broadcast_safe_iff {workerCount : Nat} :
    (∀ access ∈ sendAccesses workerCount .broadcast, access.Safe) ↔ workerCount ≤ maxWorkers := by
  unfold sendAccesses
  rw [List.forall_mem_map]
  constructor
  · intro hall
    by_contra hmany
    exact absurd (hall maxWorkers (List.mem_range.mpr (by omega))) (Nat.lt_irrefl _)
  · intro hle i hi
    exact Nat.lt_of_lt_of_le (List.mem_range.mp hi) hle

theorem send_safe_iff {workerCount target : Nat} :
    (∀ access ∈ sendAccesses workerCount (.worker target), access.Safe) ↔
      (target < workerCount → target < maxWorkers) := by
  simp only [sendAccesses]
  by_cases hlt : target < workerCount
  · rw [if_pos hlt, List.forall_mem_singleton]
    exact ⟨fun h _ => h, fun h => h hlt⟩
  · rw [if_neg hlt]
    exact iff_of_true (fun _ h => absurd h List.not_mem_nil) (fun h => absurd h hlt)

/-- An id is hashed to one of the workers there are. -/
theorem send_hash_safe_iff {workerCount : Nat} {id : CStr} :
    0 < workerCount ∧
        (∀ access ∈ sendAccesses workerCount (.worker (hashTarget workerCount id)), access.Safe) ↔
      HashFits workerCount id := by
  rw [send_safe_iff]
  exact and_congr_right fun hpos => forall_prop_of_true (Nat.mod_lt _ hpos)

/-- The literals read, the division, and what is sent, one condition for each. -/
def SafeParts (workerCount : Nat) (reads : List Sql.Expr) (hashes : Bool) (route : Route) : Prop :=
  (∀ node ∈ reads, HasValue node) ∧
    if hashes then 0 < workerCount ∧ ∀ access ∈ sendAccesses workerCount route, access.Safe
    else ∀ access ∈ sendAccesses workerCount route, access.Safe

theorem safeParts_where_iff {workerCount : Nat} {whereClause : Option Sql.Expr} :
    SafeParts workerCount (whereReads whereClause) (whereHashes whereClause)
      (routeWhere workerCount whereClause) ↔ WhereFits workerCount whereClause := by
  have hnone : SafeParts workerCount [] false .broadcast ↔ workerCount ≤ maxWorkers :=
    (and_iff_right fun _ h => absurd h List.not_mem_nil).trans broadcast_safe_iff
  have hother : ∀ left, SafeParts workerCount [left] false .broadcast ↔
      HasValue left ∧ workerCount ≤ maxWorkers := fun left =>
    and_congr List.forall_mem_singleton broadcast_safe_iff
  cases whereClause with
  | none => exact hnone
  | some cond =>
      cases cond with
      | literal value => exact hnone
      | identifier value => exact hnone
      | subquery clauses whereClause => exact hnone
      | binary left op right =>
          cases right with
          | binary left' op' right' => exact hother left
          | identifier value => exact hother left
          | subquery clauses whereClause => exact hother left
          | literal id =>
              by_cases hid : literalValue left = CStr.lit "id" ∧ op = CStr.lit "="
              · have hhash : whereHashes (some (.binary left op (.literal id))) = true :=
                  decide_eq_true hid
                simp only [whereReads, hhash, routeWhere, WhereFits, SafeParts, if_pos hid, if_true]
                exact and_congr List.forall_mem_singleton send_hash_safe_iff
              · have hhash : whereHashes (some (.binary left op (.literal id))) = false :=
                  decide_eq_false hid
                simp only [whereReads, hhash, routeWhere, WhereFits, if_neg hid]
                exact hother left

theorem routeAccesses_safe_iff {workerCount rr : Nat} {node : Sql.ASTNode} {route : Route}
    {rr' : Nat} (hroute : distRouteQuery workerCount rr node = some (route, rr')) :
    (∀ access ∈ routeAccesses workerCount rr node, access.Safe) ↔
      SafeParts workerCount (literalReads node) (divides node) route := by
  simp only [routeAccesses, hroute, List.forall_mem_append, List.forall_mem_map, SafeParts,
    and_assoc]
  refine and_congr_right fun _ => ?_
  cases divides node with
  | false => simp
  | true =>
      rcases Nat.eq_zero_or_pos workerCount with hzero | hpos
      · simp [hzero, Access.Safe]
      · have hne : workerCount ≠ 0 := by omega
        simp [hne, hpos, Access.Safe]

theorem safeParts_broadcast_iff {workerCount : Nat} :
    SafeParts workerCount [] false .broadcast ↔ workerCount ≤ maxWorkers :=
  (and_iff_right fun _ h => absurd h List.not_mem_nil).trans broadcast_safe_iff

theorem safeParts_hash_iff {workerCount : Nat} {id : CStr} :
    SafeParts workerCount [] true (.worker (hashTarget workerCount id)) ↔ HashFits workerCount id :=
  (and_iff_right fun _ h => absurd h List.not_mem_nil).trans send_hash_safe_iff

theorem routeAccesses_safe_iff_fits (workerCount rr : Nat) (node : Sql.ASTNode) :
    (∀ access ∈ routeAccesses workerCount rr node, access.Safe) ↔
      RouteFits workerCount rr node := by
  cases node with
  | insert tableName rows =>
      rw [routeAccesses_safe_iff rfl]
      by_cases hrows : rows = []
      · simp only [hrows, if_true, RouteFits, true_imp_iff]
        exact safeParts_broadcast_iff
      · simp only [RouteFits, hrows, false_imp_iff, iff_true]
        exact ⟨fun _ h => absurd h List.not_mem_nil, send_safe_iff.mpr fun _ => by decide⟩
  | select stmt => exact (routeAccesses_safe_iff rfl).trans safeParts_where_iff
  | delete tableName whereClause => exact (routeAccesses_safe_iff rfl).trans safeParts_where_iff
  | docInsert collection jsonBody =>
      by_cases hcounter : rr + 1 < 2 ^ 31
      · have hroute : distRouteQuery workerCount rr (.docInsert collection jsonBody) =
            some (.worker (rr % workerCount), rr + 1) := if_pos hcounter
        rw [routeAccesses_safe_iff hroute]
        refine (and_iff_right fun _ h => absurd h List.not_mem_nil).trans ?_
        refine (and_congr_right fun hpos => ?_)
        rw [send_safe_iff]
        exact ⟨fun h _ => h (Nat.mod_lt _ hpos), fun h _ => h hcounter⟩
      · have hroute : distRouteQuery workerCount rr (.docInsert collection jsonBody) = none :=
          if_neg hcounter
        simp only [routeAccesses, hroute, RouteFits, hcounter, false_imp_iff, and_true]
        simp [literalReads, divides, Access.Safe, Nat.pos_iff_ne_zero]
  | docGet collection docId =>
      cases docId with
      | none => exact (routeAccesses_safe_iff rfl).trans safeParts_broadcast_iff
      | some docId => exact (routeAccesses_safe_iff rfl).trans safeParts_hash_iff
  | docRemove collection docId => exact (routeAccesses_safe_iff rfl).trans safeParts_hash_iff
  | _ => exact (routeAccesses_safe_iff rfl).trans safeParts_broadcast_iff

/-- Routing is safe just when the number of workers and the condition fit. -/
theorem routesSafely_iff (config : ValidConfig) (rr : Nat) (node : Sql.ASTNode) :
    RoutesSafely config.val rr node ↔
      RouteFits (workerCountOf config.val).toNat rr node := by
  rw [RoutesSafely, List.forall_mem_append, routeAccesses_safe_iff_fits]
  exact and_iff_right (initAccesses_safe config.val)

/-- The default configuration with nine workers. -/
def nineWorkers : ValidConfig where
  val :=
    { configInitDefaults with
      configLoaded := true
      distributed := { configInitDefaults.distributed with workerCount := 9 } }
  property := by decide

/-- `SHOW TABLES` is sent to worker 8 of the array of 8. -/
theorem broadcast_leaves_array :
    ¬ ∀ (config : ValidConfig) (query : CStr) (node : Sql.ASTNode) (ctx : Sql.ParserContext)
      (rr : Nat), Sql.parse (Sql.tokenize query) = .ok node ctx →
      RoutesSafely config.val rr node := by
  intro hall
  have hparse : (match Sql.parse (Sql.tokenize (CStr.lit "SHOW TABLES;")) with
      | .ok .showTables _ => true
      | _ => false) = true := by decide +kernel
  split at hparse
  · next ctx hok =>
      have hsafe := hall nineWorkers _ _ ctx 0 hok
      have hmem : Access.worker 8 ∈ routeAccesses 9 0 .showTables :=
        List.mem_map.mpr ⟨8, by decide, rfl⟩
      exact absurd (hsafe _ (List.mem_append_right _ hmem)) (Nat.lt_irrefl 8)
  · cases hparse

end Server
end InventixDB
