import InventixDB.Cluster.Raft
import Mathlib.Data.List.Range
import Mathlib.Tactic.SplitIfs
import Mathlib.Algebra.GroupWithZero.Nat

/-!
# CommitIndex — the indices of the replication log

`commit_index` comes from heartbeats, from append-entries requests and from the callers of
`raft_commit_to`.  Only the second of them is clamped to the log.
-/

namespace InventixDB
namespace Cluster

/-! ## Data -/

/-- A node with what it has applied; `applied` are the entries `raft_commit_to` has executed, in
that order. -/
structure Replica where
  node : RaftNode
  lastApplied : UInt64
  applied : List RaftLogEntry
  deriving DecidableEq

namespace Replica

def init (selfNodeId : NodeId) : Replica where
  node := clusterInit selfNodeId
  lastApplied := 0
  applied := []

/-- The loop of `raft_commit_to`, over the entries from `last_applied` on. -/
def applyEntries (index : UInt64) : List RaftLogEntry → Replica → Replica
  | [], replica => replica
  | entry :: rest, replica =>
      if replica.lastApplied < index then
        applyEntries index rest
          { replica with
            lastApplied := replica.lastApplied + 1
            applied := replica.applied ++ [entry] }
      else replica

/-- `commit_index` becomes what the caller says, whatever it was and however long the log is. -/
def raftCommitTo (replica : Replica) (index : UInt64) : Replica :=
  let replica :=
    applyEntries index (replica.node.log.drop replica.lastApplied.toNat) replica
  { replica with node := { replica.node with commitIndex := index } }

/-- What changes the log or its indices; elections only decide who may append. -/
inductive Call
  | heartbeat (msg : HeartbeatMessage)
  | appendEntries (request : AppendEntriesRequest)
  | appendLog
  | commitTo (index : UInt64)
  | election (nodeCount : Nat) (answers : List (Option Bool))

/-- A log of 2^64 entries fits into no memory. -/
def step (replica : Replica) : Call → Option Replica
  | .heartbeat msg => some { replica with node := replica.node.heartbeatHandle msg }
  | .appendEntries request =>
      some { replica with node := (replica.node.raftHandleAppendEntries request).2 }
  | .appendLog =>
      if replica.node.log.length + 1 < 2 ^ 64 then
        some { replica with node := replica.node.raftAppendLog }
      else none
  | .commitTo index => some (replica.raftCommitTo index)
  | .election nodeCount answers =>
      some { replica with node := replica.node.raftStartElection nodeCount answers }

/-! ## The order of the indices -/

/-- `last_applied <= commit_index <= log_count`, and the entries with the indices 1 to
`last_applied` have been applied once each, in this order. -/
structure Ordered (replica : Replica) : Prop where
  applied_le : replica.lastApplied ≤ replica.node.commitIndex
  commit_le : replica.node.commitIndex.toNat ≤ replica.node.log.length
  inOrder : replica.applied.map (fun entry => entry.index.toNat) =
    List.range' 1 replica.lastApplied.toNat

/-- In every state of a run the indices are ordered, and no call takes `commit_index` back. -/
def KeepsOrder : Replica → List Call → Prop
  | replica, [] => replica.Ordered
  | replica, call :: calls =>
      replica.Ordered ∧
        ∀ after ∈ replica.step call,
          replica.node.commitIndex ≤ after.node.commitIndex ∧ KeepsOrder after calls

/-- An index from outside lies within the log, and one a caller commits to not before
`commit_index` either. -/
def Fits (replica : Replica) : Call → Prop
  | .heartbeat msg =>
      msg.term ≥ replica.node.currentTerm → msg.commitIndex.toNat ≤ replica.node.log.length
  | .commitTo index =>
      replica.node.commitIndex ≤ index ∧ index.toNat ≤ replica.node.log.length
  | .appendEntries _ | .appendLog | .election _ _ => True

def RunFits : Replica → List Call → Prop
  | _, [] => True
  | replica, call :: calls =>
      replica.Fits call ∧ ∀ after ∈ replica.step call, RunFits after calls

/-! ## What every call keeps -/

/-- Entries are numbered from 1, and the applied ones are the first of the log. -/
structure Numbered (replica : Replica) : Prop where
  fits : replica.node.log.length < 2 ^ 64
  index : replica.node.log.map (fun entry => entry.index.toNat) =
    List.range' 1 replica.node.log.length
  applied_le : replica.lastApplied.toNat ≤ replica.node.log.length
  applied : replica.applied = replica.node.log.take replica.lastApplied.toNat

theorem numbered_init (selfNodeId : NodeId) : (init selfNodeId).Numbered where
  fits := by simp [init, clusterInit]
  index := rfl
  applied_le := Nat.le_refl _
  applied := rfl

theorem Numbered.inOrder {replica : Replica} (hnumbered : replica.Numbered) :
    replica.applied.map (fun entry => entry.index.toNat) =
      List.range' 1 replica.lastApplied.toNat := by
  rw [hnumbered.applied, List.map_take, hnumbered.index,
    List.take_range'_of_length_ge hnumbered.applied_le]

/-- A handler that leaves the log alone. -/
theorem Numbered.of_log {replica : Replica} (hnumbered : replica.Numbered) {node : RaftNode}
    (hlog : node.log = replica.node.log) : { replica with node := node }.Numbered where
  fits := by rw [hlog]; exact hnumbered.fits
  index := by rw [hlog]; exact hnumbered.index
  applied_le := by rw [hlog]; exact hnumbered.applied_le
  applied := by rw [hlog]; exact hnumbered.applied

theorem log_heartbeatHandle (node : RaftNode) (msg : HeartbeatMessage) :
    (node.heartbeatHandle msg).log = node.log := by
  have hadopt : (node.adoptTerm msg.term).log = node.log := by
    unfold RaftNode.adoptTerm
    split_ifs <;> rfl
  unfold RaftNode.heartbeatHandle
  dsimp only
  split_ifs <;> exact hadopt

theorem log_raftHandleAppendEntries (node : RaftNode) (request : AppendEntriesRequest) :
    (node.raftHandleAppendEntries request).2.log = node.log := by
  unfold RaftNode.raftHandleAppendEntries
  dsimp only
  split_ifs <;> rfl

/-- An election leaves the log and its indices alone. -/
theorem log_raftStartElection (node : RaftNode) (nodeCount : Nat)
    (answers : List (Option Bool)) :
    (node.raftStartElection nodeCount answers).log = node.log ∧
      (node.raftStartElection nodeCount answers).commitIndex = node.commitIndex := by
  have hvotes : ∀ (answers : List (Option Bool)) (node : RaftNode),
      (answers.foldl (fun node answer => node.countVote (answer.getD false)) node).log = node.log ∧
      (answers.foldl (fun node answer => node.countVote (answer.getD false)) node).commitIndex =
        node.commitIndex := by
    intro answers
    induction answers with
    | nil => exact fun node => ⟨rfl, rfl⟩
    | cons answer answers ih =>
        intro node
        obtain ⟨hlog, hcommit⟩ := ih (node.countVote (answer.getD false))
        rw [List.foldl_cons, hlog, hcommit, RaftNode.countVote]
        split_ifs <;> exact ⟨rfl, rfl⟩
  obtain ⟨hlog, hcommit⟩ := hvotes answers node.startElection
  unfold RaftNode.raftStartElection RaftNode.finishElection
  split_ifs <;> exact ⟨hlog, hcommit⟩

theorem Numbered.appendLog {replica : Replica} (hnumbered : replica.Numbered)
    (hroom : replica.node.log.length + 1 < 2 ^ 64) :
    { replica with node := replica.node.raftAppendLog }.Numbered := by
  unfold RaftNode.raftAppendLog
  split_ifs with hleader
  · constructor
    · simpa using hroom
    · have hindex : (UInt64.ofNat (replica.node.log.length + 1)).toNat =
          1 + 1 * replica.node.log.length := by
        rw [UInt64.toNat_ofNat_of_lt' hroom]
        omega
      simp only [List.map_append, List.length_append, List.map_cons, List.map_nil,
        List.length_singleton]
      rw [hnumbered.index, List.range'_concat, hindex]
    · exact Nat.le_trans hnumbered.applied_le (by simp)
    · change replica.applied = List.take _ (replica.node.log ++ _)
      rw [List.take_append_of_le_length hnumbered.applied_le]
      exact hnumbered.applied
  · exact hnumbered

/-! ## Applying entries -/

/-- The loop applies the entries up to `index`, or to the end of the log. -/
theorem applyEntries_eq {index : UInt64} {rest : List RaftLogEntry} {replica : Replica}
    (hroom : replica.lastApplied.toNat + rest.length < 2 ^ 64) :
    (applyEntries index rest replica).node = replica.node ∧
      (applyEntries index rest replica).lastApplied.toNat =
        replica.lastApplied.toNat +
          min rest.length (index.toNat - replica.lastApplied.toNat) ∧
      (applyEntries index rest replica).applied =
        replica.applied ++ rest.take (index.toNat - replica.lastApplied.toNat) := by
  induction rest generalizing replica with
  | nil => simp [applyEntries]
  | cons entry rest ih =>
      unfold applyEntries
      split_ifs with hlt
      · have hlt' : replica.lastApplied.toNat < index.toNat := UInt64.lt_iff_toNat_lt.mp hlt
        rw [List.length_cons] at hroom
        have hnext : (replica.lastApplied + 1).toNat = replica.lastApplied.toNat + 1 := by
          rw [UInt64.toNat_add, UInt64.toNat_one, Nat.mod_eq_of_lt (by omega)]
        have hsucc : index.toNat - replica.lastApplied.toNat =
            (index.toNat - (replica.lastApplied.toNat + 1)) + 1 := by omega
        obtain ⟨hnode, hlast, happlied⟩ := @ih
          { replica with
            lastApplied := replica.lastApplied + 1
            applied := replica.applied ++ [entry] } (by
              change (replica.lastApplied + 1).toNat + rest.length < 2 ^ 64
              omega)
        refine ⟨hnode, ?_, ?_⟩
        · rw [hlast, hnext, List.length_cons]
          omega
        · rw [happlied, hnext, hsucc, List.take_succ_cons, List.append_assoc]
          rfl
      · have hle : index.toNat ≤ replica.lastApplied.toNat :=
          Nat.le_of_not_lt fun h => hlt (UInt64.lt_iff_toNat_lt.mpr h)
        rw [Nat.sub_eq_zero_of_le hle]
        simp

theorem raftCommitTo_eq {replica : Replica} (hnumbered : replica.Numbered) (index : UInt64) :
    (replica.raftCommitTo index).node = { replica.node with commitIndex := index } ∧
      (replica.raftCommitTo index).lastApplied.toNat =
        max replica.lastApplied.toNat (min index.toNat replica.node.log.length) ∧
      (replica.raftCommitTo index).applied =
        replica.node.log.take (replica.raftCommitTo index).lastApplied.toNat := by
  have hle := hnumbered.applied_le
  have hfits := hnumbered.fits
  obtain ⟨hnode, hlast, happlied⟩ := @applyEntries_eq index
    (replica.node.log.drop replica.lastApplied.toNat) replica (by
      rw [List.length_drop]
      omega)
  rw [List.length_drop] at hlast
  have hlast' : (replica.raftCommitTo index).lastApplied.toNat =
      max replica.lastApplied.toNat (min index.toNat replica.node.log.length) := by
    change (applyEntries index _ replica).lastApplied.toNat = _
    rw [hlast]
    omega
  refine ⟨?_, hlast', ?_⟩
  · change { (applyEntries index _ replica).node with commitIndex := index } = _
    rw [hnode]
  · change (applyEntries index _ replica).applied = _
    rw [hlast', happlied, hnumbered.applied, ← List.take_add, List.take_eq_take_iff]
    omega

theorem Numbered.commitTo {replica : Replica} (hnumbered : replica.Numbered) (index : UInt64) :
    (replica.raftCommitTo index).Numbered := by
  obtain ⟨hnode, hlast, happlied⟩ := raftCommitTo_eq hnumbered index
  constructor
  · rw [hnode]
    exact hnumbered.fits
  · rw [hnode]
    exact hnumbered.index
  · rw [hnode, hlast]
    exact Nat.max_le.mpr ⟨hnumbered.applied_le, Nat.min_le_right _ _⟩
  · rw [hnode]
    exact happlied

theorem Numbered.step {replica after : Replica} {call : Call} (hnumbered : replica.Numbered)
    (hstep : replica.step call = some after) : after.Numbered := by
  cases call with
  | heartbeat msg =>
      cases hstep
      exact hnumbered.of_log (log_heartbeatHandle _ msg)
  | appendEntries request =>
      cases hstep
      exact hnumbered.of_log (log_raftHandleAppendEntries _ request)
  | appendLog =>
      unfold Replica.step at hstep
      split_ifs at hstep with hroom
      cases hstep
      exact hnumbered.appendLog hroom
  | commitTo index =>
      cases hstep
      exact hnumbered.commitTo index
  | election nodeCount answers =>
      cases hstep
      exact hnumbered.of_log (log_raftStartElection _ nodeCount answers).1

/-! ## What each call does to the order -/

theorem toNat_logCount {replica : Replica} (hnumbered : replica.Numbered) :
    (UInt64.ofNat replica.node.log.length).toNat = replica.node.log.length :=
  UInt64.toNat_ofNat_of_lt' hnumbered.fits

/-- A heartbeat moves `commit_index` to that of a leader that is ahead. -/
theorem commitIndex_heartbeatHandle (node : RaftNode) (msg : HeartbeatMessage) :
    (node.heartbeatHandle msg).commitIndex.toNat =
      if msg.term ≥ node.currentTerm then max node.commitIndex.toNat msg.commitIndex.toNat
      else node.commitIndex.toNat := by
  have hadopt : (node.adoptTerm msg.term).commitIndex = node.commitIndex := by
    unfold RaftNode.adoptTerm
    split_ifs <;> rfl
  have hterm : msg.term ≥ (node.adoptTerm msg.term).currentTerm ↔ msg.term ≥ node.currentTerm := by
    unfold RaftNode.adoptTerm
    split_ifs with hnew
    · exact iff_of_true (UInt64.le_refl _) (UInt64.le_of_lt hnew)
    · exact Iff.rfl
  unfold RaftNode.heartbeatHandle
  dsimp only
  by_cases haccept : msg.term ≥ node.currentTerm
  · rw [if_pos (hterm.mpr haccept), if_pos haccept]
    dsimp only
    rw [hadopt]
    split_ifs with hahead
    · have hlt := UInt64.lt_iff_toNat_lt.mp hahead
      omega
    · have hle : msg.commitIndex.toNat ≤ node.commitIndex.toNat :=
        Nat.le_of_not_lt fun h => hahead (UInt64.lt_iff_toNat_lt.mpr h)
      omega
  · rw [if_neg fun h => haccept (hterm.mp h), if_neg haccept, hadopt]

/-- An append-entries request moves it forward, and no further than the log goes. -/
theorem commitIndex_raftHandleAppendEntries {replica : Replica} (hnumbered : replica.Numbered)
    (hordered : replica.Ordered) (request : AppendEntriesRequest) :
    replica.node.commitIndex.toNat ≤
        (replica.node.raftHandleAppendEntries request).2.commitIndex.toNat ∧
      (replica.node.raftHandleAppendEntries request).2.commitIndex.toNat ≤
        replica.node.log.length := by
  have hcommit := hordered.commit_le
  have hcount := toNat_logCount hnumbered
  unfold RaftNode.raftHandleAppendEntries
  dsimp only
  split_ifs with hold hmissing hahead hclamp
  · exact ⟨Nat.le_refl _, hcommit⟩
  · exact ⟨Nat.le_refl _, hcommit⟩
  · have hlt := UInt64.lt_iff_toNat_lt.mp hahead
    have hlt' := UInt64.lt_iff_toNat_lt.mp hclamp
    dsimp only
    omega
  · dsimp only
    omega
  · exact ⟨Nat.le_refl _, hcommit⟩

/-- After a call the indices are ordered, and `commit_index` has not gone back, exactly if the call
fits. -/
theorem step_iff {replica after : Replica} {call : Call} (hnumbered : replica.Numbered)
    (hordered : replica.Ordered) (hstep : replica.step call = some after) :
    (after.Ordered ∧ replica.node.commitIndex ≤ after.node.commitIndex) ↔ replica.Fits call := by
  have hafter := hnumbered.step hstep
  have hcommit := hordered.commit_le
  have happlied := UInt64.le_iff_toNat_le.mp hordered.applied_le
  -- the entries applied are in order after every call
  have hiff : (after.Ordered ∧ replica.node.commitIndex ≤ after.node.commitIndex) ↔
      after.lastApplied.toNat ≤ after.node.commitIndex.toNat ∧
        after.node.commitIndex.toNat ≤ after.node.log.length ∧
          replica.node.commitIndex.toNat ≤ after.node.commitIndex.toNat := by
    constructor
    · rintro ⟨⟨hle, hlog, _⟩, hback⟩
      exact ⟨UInt64.le_iff_toNat_le.mp hle, hlog, UInt64.le_iff_toNat_le.mp hback⟩
    · rintro ⟨hle, hlog, hback⟩
      exact ⟨⟨UInt64.le_iff_toNat_le.mpr hle, hlog, hafter.inOrder⟩,
        UInt64.le_iff_toNat_le.mpr hback⟩
  rw [hiff]
  cases call with
  | heartbeat msg =>
      cases hstep
      dsimp only [Fits]
      rw [commitIndex_heartbeatHandle, log_heartbeatHandle]
      split_ifs with haccept
      · simp only [haccept, forall_const]
        omega
      · simp only [haccept, false_imp_iff, iff_true]
        omega
  | appendEntries request =>
      cases hstep
      obtain ⟨hback, hlog⟩ := commitIndex_raftHandleAppendEntries hnumbered hordered request
      refine iff_of_true ⟨?_, ?_, hback⟩ trivial
      · exact Nat.le_trans happlied hback
      · dsimp only
        rw [log_raftHandleAppendEntries]
        exact hlog
  | appendLog =>
      unfold Replica.step at hstep
      split_ifs at hstep
      cases hstep
      have hnode : replica.node.raftAppendLog.commitIndex = replica.node.commitIndex ∧
          replica.node.log.length ≤ replica.node.raftAppendLog.log.length := by
        unfold RaftNode.raftAppendLog
        split_ifs
        · exact ⟨rfl, by simp⟩
        · exact ⟨rfl, Nat.le_refl _⟩
      refine iff_of_true ?_ trivial
      dsimp only
      rw [hnode.1]
      exact ⟨happlied, Nat.le_trans hcommit hnode.2, Nat.le_refl _⟩
  | commitTo index =>
      cases hstep
      obtain ⟨hnode, hlast, _⟩ := raftCommitTo_eq hnumbered index
      dsimp only [Fits]
      rw [hnode, hlast, UInt64.le_iff_toNat_le]
      dsimp only
      omega
  | election nodeCount answers =>
      cases hstep
      obtain ⟨hlog, hcommit'⟩ := log_raftStartElection replica.node nodeCount answers
      refine iff_of_true ?_ trivial
      dsimp only
      rw [hlog, hcommit']
      exact ⟨happlied, hcommit, Nat.le_refl _⟩

theorem KeepsOrder.ordered {replica : Replica} {calls : List Call}
    (hkeeps : replica.KeepsOrder calls) : replica.Ordered := by
  cases calls with
  | nil => exact hkeeps
  | cons _ _ => exact hkeeps.1

theorem keepsOrder_iff {replica : Replica} {calls : List Call} (hnumbered : replica.Numbered)
    (hordered : replica.Ordered) : replica.KeepsOrder calls ↔ replica.RunFits calls := by
  induction calls generalizing replica with
  | nil => exact iff_of_true hordered trivial
  | cons call calls ih =>
      constructor
      · rintro ⟨_, hkeeps⟩
        refine ⟨?_, fun after hstep => ?_⟩
        · cases hstep : replica.step call with
          | some after =>
              obtain ⟨hback, hrest⟩ := hkeeps after hstep
              exact (step_iff hnumbered hordered hstep).mp ⟨hrest.ordered, hback⟩
          | none =>
              -- only an append can run out of memory
              cases call with
              | appendLog => trivial
              | _ => cases hstep
        · have hrest := (hkeeps after hstep).2
          exact (ih (hnumbered.step hstep) hrest.ordered).mp hrest
      · rintro ⟨hfits, hrest⟩
        refine ⟨hordered, fun after hstep => ?_⟩
        obtain ⟨hafter, hback⟩ := (step_iff hnumbered hordered hstep).mpr hfits
        exact ⟨hback, (ih (hnumbered.step hstep) hafter).mpr (hrest after hstep)⟩

/-! ## The order over whole runs -/

theorem ordered_init (selfNodeId : NodeId) : (init selfNodeId).Ordered where
  applied_le := UInt64.le_refl _
  commit_le := Nat.le_refl _
  inOrder := rfl

/-- From its start on, a node keeps its indices in order exactly if every index from outside lies
within its log, and none that is committed to lies before `commit_index`. -/
theorem keepsOrder_init_iff (selfNodeId : NodeId) (calls : List Call) :
    (init selfNodeId).KeepsOrder calls ↔ (init selfNodeId).RunFits calls :=
  keepsOrder_iff (numbered_init selfNodeId) (ordered_init selfNodeId)

/-- A heartbeat moves `commit_index` past the end of an empty log. -/
theorem heartbeat_commits_past_log :
    ∃ after, (init 1).step (.heartbeat { term := 1, commitIndex := 5, leaderId := 2 }) =
        some after ∧
      after.node.commitIndex = 5 ∧ after.node.log = [] ∧
      ¬ (init 1).KeepsOrder [.heartbeat { term := 1, commitIndex := 5, leaderId := 2 }] := by
  refine ⟨_, rfl, rfl, rfl, fun hkeeps => ?_⟩
  have hcommit := (hkeeps.2 _ rfl).2.commit_le
  exact absurd hcommit (by decide)

end Replica

end Cluster
end InventixDB
