import InventixDB.Cluster.Raft
import Mathlib.Algebra.GroupWithZero.Nat
import Mathlib.Data.Finset.Basic

/-!
# Voting — one node, one vote a term

The handlers and the node's own elections are run one after another.  A node remembers its last
vote only; `Voted` says that this is enough, since what was granted before was granted in older
terms.  The one thing that can break it is a term that wraps around.
-/

namespace InventixDB
namespace Cluster

/-! ## Runs of one node -/

inductive NodeEvent
  | voteRequest (request : VoteRequest)
  | appendEntries (request : AppendEntriesRequest)
  | heartbeat (msg : HeartbeatMessage)
  | appendLog
  | election (nodeCount : Nat) (answers : List (Option Bool))
  deriving DecidableEq

def RaftNode.step (node : RaftNode) : NodeEvent → RaftNode
  | .voteRequest request => (node.raftHandleVoteRequest request).2
  | .appendEntries request => (node.raftHandleAppendEntries request).2
  | .heartbeat msg => node.heartbeatHandle msg
  | .appendLog => node.raftAppendLog
  | .election nodeCount answers => node.raftStartElection nodeCount answers

/-- The vote the event makes the node grant, with its term: to a candidate, or to itself. -/
def RaftNode.granted (node : RaftNode) : NodeEvent → Option (Term × NodeId)
  | .voteRequest request =>
      if (node.raftHandleVoteRequest request).1.voteGranted then
        some ((node.raftHandleVoteRequest request).1.term, request.senderId)
      else none
  | .election _ _ => some (node.startElection.currentTerm, node.selfNodeId)
  | _ => none

/-- The node after the events. -/
def RaftNode.run (node : RaftNode) (events : List NodeEvent) : RaftNode :=
  events.foldl RaftNode.step node

/-- All votes it has granted during them. -/
def RaftNode.votes : RaftNode → List NodeEvent → List (Term × NodeId)
  | _, [] => []
  | node, e :: events => (node.granted e).toList ++ (node.step e).votes events

/-- The term never decreases. -/
def RaftNode.TermsGrow : RaftNode → List NodeEvent → Prop
  | _, [] => True
  | node, e :: events =>
      node.currentTerm ≤ (node.step e).currentTerm ∧ (node.step e).TermsGrow events

/-- At most one candidate gets a vote in each term. -/
def OneVotePerTerm (votes : List (Term × NodeId)) : Prop :=
  ∀ v ∈ votes, ∀ v' ∈ votes, v.1 = v'.1 → v.2 = v'.2

/-- No own election starts in the largest term there is. -/
def RaftNode.NoWrap : RaftNode → List NodeEvent → Prop
  | _, [] => True
  | node, e :: events =>
      (∀ nodeCount answers, e = .election nodeCount answers →
        node.currentTerm.toNat + 1 < 2 ^ 64) ∧ (node.step e).NoWrap events

/-- A vote request comes from a node with an id. -/
def NodeEvent.HasSender : NodeEvent → Prop
  | .voteRequest request => request.senderId ≠ 0
  | _ => True

/-! ## What the operations do to the term and the vote -/

/-- The term does not fall, and the vote changes only with the term, or when one is granted. -/
structure Moves (node node' : RaftNode) (vote : Option (Term × NodeId)) : Prop where
  selfNodeId : node'.selfNodeId = node.selfNodeId
  le : node.currentTerm.toNat ≤ node'.currentTerm.toNat
  kept : vote = none → node'.currentTerm = node.currentTerm → node'.votedFor = node.votedFor
  granted : ∀ v ∈ vote, v.1 = node'.currentTerm ∧ node'.votedFor = v.2 ∧
    (node'.currentTerm = node.currentTerm → node.votedFor = 0 ∨ node.votedFor = v.2)

/-- What leaves id, term and vote alone. -/
theorem moves_of_eq {node node' : RaftNode} (hself : node'.selfNodeId = node.selfNodeId)
    (hterm : node'.currentTerm = node.currentTerm) (hvote : node'.votedFor = node.votedFor) :
    Moves node node' none where
  selfNodeId := hself
  le := by rw [hterm]
  kept := by
    intro _ _
    exact hvote
  granted := by simp

/-- Something that does not vote, after something that may have. -/
theorem Moves.trans {node node₁ node₂ : RaftNode} {vote : Option (Term × NodeId)}
    (h₁ : Moves node node₁ vote) (hself : node₂.selfNodeId = node₁.selfNodeId)
    (hterm : node₂.currentTerm = node₁.currentTerm) (hvote : node₂.votedFor = node₁.votedFor) :
    Moves node node₂ vote where
  selfNodeId := hself.trans h₁.selfNodeId
  le := by
    rw [hterm]
    exact h₁.le
  kept := by
    rw [hterm, hvote]
    exact h₁.kept
  granted := by
    rw [hterm, hvote]
    exact h₁.granted

theorem moves_adoptTerm (node : RaftNode) (term : Term) :
    Moves node (node.adoptTerm term) none ∧
      term.toNat ≤ (node.adoptTerm term).currentTerm.toNat := by
  unfold RaftNode.adoptTerm
  by_cases hgt : term > node.currentTerm
  · rw [if_pos hgt]
    have hlt : node.currentTerm.toNat < term.toNat := UInt64.lt_iff_toNat_lt.mp hgt
    refine ⟨⟨rfl, hlt.le, ?_, by simp⟩, le_rfl⟩
    intro _ heq
    rw [show term = node.currentTerm from heq] at hlt
    exact absurd hlt (lt_irrefl _)
  · rw [if_neg hgt]
    refine ⟨moves_of_eq rfl rfl rfl, ?_⟩
    exact UInt64.le_iff_toNat_le.mp (UInt64.not_lt.mp hgt)

theorem moves_raftHandleVoteRequest (node : RaftNode) (request : VoteRequest) :
    Moves node (node.raftHandleVoteRequest request).2
      (if (node.raftHandleVoteRequest request).1.voteGranted then
        some ((node.raftHandleVoteRequest request).1.term, request.senderId)
      else none) := by
  obtain ⟨hadopt, _⟩ := moves_adoptTerm node request.term
  unfold RaftNode.raftHandleVoteRequest
  split
  · exact moves_of_eq rfl rfl rfl
  · dsimp only
    split
    · next hgrant =>
        refine ⟨hadopt.selfNodeId, hadopt.le, by simp, ?_⟩
        rintro v hv
        cases hv
        refine ⟨rfl, rfl, ?_⟩
        intro hterm
        have hkept := hadopt.kept rfl hterm
        rw [← hkept]
        exact hgrant.1
    · exact hadopt

theorem moves_raftHandleAppendEntries (node : RaftNode) (request : AppendEntriesRequest) :
    Moves node (node.raftHandleAppendEntries request).2 none := by
  unfold RaftNode.raftHandleAppendEntries
  split
  · exact moves_of_eq rfl rfl rfl
  · next hge =>
      have hle : node.currentTerm.toNat ≤ request.term.toNat :=
        UInt64.le_iff_toNat_le.mp (UInt64.not_lt.mp hge)
      dsimp only
      split
      · exact ⟨rfl, hle, fun _ _ => rfl, by simp⟩
      · split <;> exact ⟨rfl, hle, fun _ _ => rfl, by simp⟩

theorem moves_heartbeatHandle (node : RaftNode) (msg : HeartbeatMessage) :
    Moves node (node.heartbeatHandle msg) none := by
  obtain ⟨hadopt, _⟩ := moves_adoptTerm node msg.term
  unfold RaftNode.heartbeatHandle
  dsimp only
  split
  · exact hadopt.trans rfl rfl rfl
  · exact hadopt

theorem moves_raftAppendLog (node : RaftNode) : Moves node node.raftAppendLog none := by
  unfold RaftNode.raftAppendLog
  split <;> exact moves_of_eq rfl rfl rfl

theorem moves_countVote (node : RaftNode) (voteGranted : Bool) :
    Moves node (node.countVote voteGranted) none := by
  unfold RaftNode.countVote
  split <;> exact moves_of_eq rfl rfl rfl

theorem moves_finishElection (node : RaftNode) (nodeCount : Nat) :
    Moves node (node.finishElection nodeCount) none := by
  unfold RaftNode.finishElection
  split <;> exact moves_of_eq rfl rfl rfl

theorem toNat_startElection {node : RaftNode} (hwrap : node.currentTerm.toNat + 1 < 2 ^ 64) :
    node.startElection.currentTerm.toNat = node.currentTerm.toNat + 1 := by
  unfold RaftNode.startElection
  rw [UInt64.toNat_add, UInt64.toNat_one]
  exact Nat.mod_eq_of_lt hwrap

/-- A candidacy that does not wrap the term around. -/
theorem moves_startElection {node : RaftNode} (hwrap : node.currentTerm.toNat + 1 < 2 ^ 64) :
    Moves node node.startElection (some (node.startElection.currentTerm, node.selfNodeId)) := by
  have hterm := toNat_startElection hwrap
  refine ⟨rfl, by omega, by simp, ?_⟩
  rintro v hv
  cases hv
  refine ⟨rfl, rfl, ?_⟩
  intro heq
  rw [heq] at hterm
  omega

/-- The polling and the promotion change neither the term nor the vote. -/
theorem moves_raftStartElection {node : RaftNode} (nodeCount : Nat)
    (answers : List (Option Bool)) (hwrap : node.currentTerm.toNat + 1 < 2 ^ 64) :
    Moves node (node.raftStartElection nodeCount answers)
      (some (node.startElection.currentTerm, node.selfNodeId)) := by
  have hpoll : ∀ (answers : List (Option Bool)) (polling : RaftNode),
      Moves node polling (some (node.startElection.currentTerm, node.selfNodeId)) →
      Moves node (answers.foldl (fun node answer => node.countVote (answer.getD false)) polling)
        (some (node.startElection.currentTerm, node.selfNodeId)) := by
    intro answers
    induction answers with
    | nil => exact fun polling hpolling => hpolling
    | cons answer answers ih =>
        intro polling hpolling
        refine ih _ ?_
        dsimp only [RaftNode.countVote]
        split
        · exact hpolling.trans rfl rfl rfl
        · exact hpolling
  have hpolled := hpoll answers _ (moves_startElection hwrap)
  unfold RaftNode.raftStartElection RaftNode.finishElection
  split <;> exact hpolled.trans rfl rfl rfl

/-! ## Votes granted so far -/

/-- The votes granted so far are old, or the one the node remembers. -/
structure Voted (node : RaftNode) (votes : List (Term × NodeId)) : Prop where
  le : ∀ v ∈ votes, v.1.toNat ≤ node.currentTerm.toNat
  current : ∀ v ∈ votes, v.1 = node.currentTerm → node.votedFor = v.2
  nonzero : ∀ v ∈ votes, v.2 ≠ 0
  unique : OneVotePerTerm votes

theorem voted_nil (node : RaftNode) : Voted node [] where
  le := by simp
  current := by simp
  nonzero := by simp
  unique := by simp [OneVotePerTerm]

/-- A move keeps the votes of the past in order, and adds its own. -/
theorem Voted.moves {node node' : RaftNode} {votes : List (Term × NodeId)}
    {vote : Option (Term × NodeId)} (hvoted : Voted node votes) (hmoves : Moves node node' vote)
    (hnonzero : ∀ v ∈ vote, v.2 ≠ 0) : Voted node' (votes ++ vote.toList) := by
  -- An old vote of the new term was granted in the same term, which has not changed since.
  have hold : ∀ v ∈ votes, v.1 = node'.currentTerm →
      node'.currentTerm = node.currentTerm ∧ node.votedFor = v.2 := by
    intro v hv hterm
    have hle := hvoted.le v hv
    have hsame : node'.currentTerm = node.currentTerm := by
      refine UInt64.toNat_inj.mp (Nat.le_antisymm ?_ hmoves.le)
      rwa [← hterm]
    exact ⟨hsame, hvoted.current v hv (hterm.trans hsame)⟩
  cases vote with
  | none =>
      rw [Option.toList_none, List.append_nil]
      refine ⟨fun v hv => (hvoted.le v hv).trans hmoves.le, ?_, hvoted.nonzero, hvoted.unique⟩
      intro v hv hterm
      obtain ⟨hsame, hfor⟩ := hold v hv hterm
      exact (hmoves.kept rfl hsame).trans hfor
  | some new =>
      obtain ⟨hnew, hfor, hfree⟩ := hmoves.granted new rfl
      -- The vote is new in its term, or repeats the one the node remembers.
      have hagree : ∀ v ∈ votes, v.1 = new.1 → v.2 = new.2 := by
        intro v hv hterm
        obtain ⟨hsame, hcur⟩ := hold v hv (hterm.trans hnew)
        rcases hfree hsame with hzero | heq
        · exact absurd (hcur.symm.trans hzero) (hvoted.nonzero v hv)
        · exact hcur.symm.trans heq
      rw [Option.toList_some]
      refine ⟨?_, ?_, ?_, ?_⟩
      · intro v hv
        rcases List.mem_append.mp hv with hv | hv
        · exact (hvoted.le v hv).trans hmoves.le
        · rw [List.mem_singleton.mp hv, hnew]
      · intro v hv hterm
        rcases List.mem_append.mp hv with hv | hv
        · exact hfor.trans (hagree v hv (hterm.trans hnew.symm)).symm
        · rw [List.mem_singleton.mp hv]
          exact hfor
      · intro v hv
        rcases List.mem_append.mp hv with hv | hv
        · exact hvoted.nonzero v hv
        · rw [List.mem_singleton.mp hv]
          exact hnonzero new rfl
      · intro v hv v' hv' heq
        rcases List.mem_append.mp hv with hv | hv
        · rcases List.mem_append.mp hv' with hv' | hv'
          · exact hvoted.unique v hv v' hv' heq
          · rw [List.mem_singleton.mp hv'] at heq ⊢
            exact hagree v hv heq
        · rw [List.mem_singleton.mp hv] at heq ⊢
          rcases List.mem_append.mp hv' with hv' | hv'
          · exact (hagree v' hv' heq.symm).symm
          · rw [List.mem_singleton.mp hv']

/-! ## Whole runs -/

/-- One event, unless it is an election that wraps the term around. -/
theorem moves_step {node : RaftNode} {e : NodeEvent}
    (hwrap : ∀ nodeCount answers, e = .election nodeCount answers →
      node.currentTerm.toNat + 1 < 2 ^ 64) : Moves node (node.step e) (node.granted e) := by
  cases e with
  | voteRequest request => exact moves_raftHandleVoteRequest node request
  | appendEntries request => exact moves_raftHandleAppendEntries node request
  | heartbeat msg => exact moves_heartbeatHandle node msg
  | appendLog => exact moves_raftAppendLog node
  | election nodeCount answers =>
      exact moves_raftStartElection nodeCount answers (hwrap nodeCount answers rfl)

/-- A vote goes to a node with an id. -/
theorem granted_ne_zero {node : RaftNode} {e : NodeEvent} (hself : node.selfNodeId ≠ 0)
    (hsender : e.HasSender) : ∀ v ∈ node.granted e, v.2 ≠ 0 := by
  intro v hv
  cases e with
  | voteRequest request =>
      obtain ⟨_, hv⟩ := Option.ite_none_right_eq_some.mp hv
      cases hv
      exact hsender
  | appendEntries request => cases hv
  | heartbeat msg => cases hv
  | appendLog => cases hv
  | election nodeCount answers =>
      cases hv
      exact hself

theorem Voted.run {node : RaftNode} {votes : List (Term × NodeId)} {events : List NodeEvent}
    (hvoted : Voted node votes) (hself : node.selfNodeId ≠ 0)
    (hsenders : ∀ e ∈ events, e.HasSender) (hwrap : node.NoWrap events) :
    node.TermsGrow events ∧ OneVotePerTerm (votes ++ node.votes events) := by
  induction events generalizing node votes with
  | nil => exact ⟨trivial, by simpa [RaftNode.votes] using hvoted.unique⟩
  | cons e events ih =>
      obtain ⟨hone, hrest⟩ := hwrap
      have hmoves := moves_step hone
      have hvoted' := hvoted.moves hmoves
        (granted_ne_zero hself (hsenders e List.mem_cons_self))
      have hself' : (node.step e).selfNodeId ≠ 0 := by rwa [hmoves.selfNodeId]
      obtain ⟨hgrow, hunique⟩ :=
        ih hvoted' hself' (fun e he => hsenders e (List.mem_cons_of_mem _ he)) hrest
      refine ⟨⟨UInt64.le_iff_toNat_le.mpr hmoves.le, hgrow⟩, ?_⟩
      rwa [List.append_assoc] at hunique

theorem raftStartElection_currentTerm (node : RaftNode) (nodeCount : Nat)
    (answers : List (Option Bool)) :
    (node.raftStartElection nodeCount answers).currentTerm = node.currentTerm + 1 := by
  have hpoll : ∀ (answers : List (Option Bool)) (polling : RaftNode),
      (answers.foldl (fun node answer => node.countVote (answer.getD false))
        polling).currentTerm = polling.currentTerm := by
    intro answers
    induction answers with
    | nil => exact fun polling => rfl
    | cons answer answers ih =>
        intro polling
        rw [List.foldl_cons, ih]
        unfold RaftNode.countVote
        split <;> rfl
  unfold RaftNode.raftStartElection RaftNode.finishElection
  split <;> exact hpoll answers _

/-- An election that wraps the term around makes it fall. -/
theorem noWrap_of_termsGrow {node : RaftNode} {events : List NodeEvent}
    (hgrow : node.TermsGrow events) : node.NoWrap events := by
  induction events generalizing node with
  | nil => trivial
  | cons e events ih =>
      obtain ⟨hone, hrest⟩ := hgrow
      refine ⟨?_, ih hrest⟩
      rintro nodeCount answers rfl
      rw [RaftNode.step, raftStartElection_currentTerm, UInt64.le_iff_toNat_le,
        UInt64.toNat_add, UInt64.toNat_one] at hone
      have hlt := node.currentTerm.toNat_lt
      omega

/-- From its start a node keeps its term from falling and its votes apart exactly if no own
election wraps the term around. -/
theorem vote_unique_iff_noWrap (selfNodeId : NodeId) (events : List NodeEvent)
    (hself : selfNodeId ≠ 0) (hsenders : ∀ e ∈ events, e.HasSender) :
    ((clusterInit selfNodeId).TermsGrow events ∧
        OneVotePerTerm ((clusterInit selfNodeId).votes events)) ↔
      (clusterInit selfNodeId).NoWrap events := by
  constructor
  · rintro ⟨hgrow, _⟩
    exact noWrap_of_termsGrow hgrow
  · intro hwrap
    exact (voted_nil _).run hself hsenders hwrap

theorem vote_unique_iff_noWrap_two :
    ((clusterInit 1).TermsGrow
          [.voteRequest { senderId := 2, term := 1, lastLogIndex := 0, lastLogTerm := 0 },
            .voteRequest { senderId := 3, term := 1, lastLogIndex := 0, lastLogTerm := 0 },
            .election 3 [some true, none]] ∧
        OneVotePerTerm ((clusterInit 1).votes
          [.voteRequest { senderId := 2, term := 1, lastLogIndex := 0, lastLogTerm := 0 },
            .voteRequest { senderId := 3, term := 1, lastLogIndex := 0, lastLogTerm := 0 },
            .election 3 [some true, none]])) ↔
      (clusterInit 1).NoWrap
        [.voteRequest { senderId := 2, term := 1, lastLogIndex := 0, lastLogTerm := 0 },
          .voteRequest { senderId := 3, term := 1, lastLogIndex := 0, lastLogTerm := 0 },
          .election 3 [some true, none]] :=
  vote_unique_iff_noWrap 1 _ (by decide) (by simp [NodeEvent.HasSender])

/-- After a heartbeat of the largest term the next election starts in term 0 again, where the node
may have voted before. -/
theorem election_wraps_term :
    ¬ ((clusterInit 1).TermsGrow
          [.voteRequest { senderId := 2, term := 0, lastLogIndex := 0, lastLogTerm := 0 },
            .heartbeat { term := 18446744073709551615, commitIndex := 0, leaderId := 2 },
            .election 3 [none, none]]) ∧
      ¬ OneVotePerTerm ((clusterInit 1).votes
          [.voteRequest { senderId := 2, term := 0, lastLogIndex := 0, lastLogTerm := 0 },
            .heartbeat { term := 18446744073709551615, commitIndex := 0, leaderId := 2 },
            .election 3 [none, none]]) := by
  constructor
  · rintro ⟨_, _, hfalls, _⟩
    exact absurd hfalls (by decide)
  · intro hunique
    have htwo := hunique (0, 2) (by decide) (0, 1) (by decide) rfl
    exact absurd htwo (by decide)

end Cluster
end InventixDB
