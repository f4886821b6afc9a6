import Mathlib.Data.List.Basic

/-!
# Raft — one cluster node

The Raft state of a node and the handlers that change it.  `raft_start_election` polls the peers
one by one and can be interrupted by the handlers, so its steps are definitions of their own.
Terms are `uint64_t` and wrap around.
-/

namespace InventixDB
namespace Cluster

/-! ## Data -/

abbrev NodeId := UInt32

abbrev Term := UInt64

inductive NodeRole
  | follower
  | candidate
  | leader
  deriving DecidableEq, Repr

structure RaftLogEntry where
  index : UInt64
  term : Term
  deriving DecidableEq, Repr

structure RaftNode where
  selfNodeId : NodeId
  currentRole : NodeRole
  currentLeader : NodeId
  currentTerm : Term
  votedFor : NodeId
  commitIndex : UInt64
  log : List RaftLogEntry
  votesReceived : Nat
  electionInProgress : Bool
  deriving DecidableEq, Repr

/-- What `cluster_init` sets up. -/
def clusterInit (selfNodeId : NodeId) : RaftNode where
  selfNodeId := selfNodeId
  currentRole := .follower
  currentLeader := 0
  currentTerm := 0
  votedFor := 0
  commitIndex := 0
  log := []
  votesReceived := 0
  electionInProgress := false

structure VoteRequest where
  senderId : NodeId
  term : Term
  lastLogIndex : UInt64
  lastLogTerm : Term
  deriving DecidableEq, Repr

structure VoteResponse where
  term : Term
  voteGranted : Bool
  deriving DecidableEq, Repr

structure AppendEntriesRequest where
  senderId : NodeId
  term : Term
  prevLogIndex : UInt64
  prevLogTerm : Term
  leaderCommit : UInt64
  deriving DecidableEq, Repr

structure HeartbeatMessage where
  term : Term
  commitIndex : UInt64
  leaderId : NodeId
  deriving DecidableEq, Repr

namespace RaftNode

/-- The index and the term of the last log entry, or zeros. -/
def lastLog (node : RaftNode) : UInt64 × Term :=
  match node.log.getLast? with
  | some entry => (entry.index, entry.term)
  | none => (0, 0)

/-! ## Handlers -/

/-- The log is at least as up to date as that of `node`. -/
def UpToDate (node : RaftNode) (request : VoteRequest) : Prop :=
  request.lastLogTerm > node.lastLog.2 ∨
    (request.lastLogTerm = node.lastLog.2 ∧ request.lastLogIndex ≥ node.lastLog.1)

instance (node : RaftNode) (request : VoteRequest) : Decidable (node.UpToDate request) := by
  unfold UpToDate
  infer_instance

/-- A message of a newer term makes the node a follower without a vote. -/
def adoptTerm (node : RaftNode) (term : Term) : RaftNode :=
  if term > node.currentTerm then
    { node with currentTerm := term, currentRole := .follower, votedFor := 0 }
  else node

def raftHandleVoteRequest (node : RaftNode) (request : VoteRequest) : VoteResponse × RaftNode :=
  if request.term < node.currentTerm then
    ({ term := node.currentTerm, voteGranted := false }, node)
  else
    let node := node.adoptTerm request.term
    if (node.votedFor = 0 ∨ node.votedFor = request.senderId) ∧ node.UpToDate request then
      ({ term := node.currentTerm, voteGranted := true },
        { node with votedFor := request.senderId })
    else ({ term := node.currentTerm, voteGranted := false }, node)

/-- The leader is accepted before its log is looked at, and the vote is kept. -/
def raftHandleAppendEntries (node : RaftNode) (request : AppendEntriesRequest) :
    Bool × RaftNode :=
  if request.term < node.currentTerm then (false, node)
  else
    let node :=
      { node with
        currentTerm := request.term
        currentRole := .follower
        currentLeader := request.senderId }
    let logCount := UInt64.ofNat node.log.length
    if request.prevLogIndex > 0 ∧
        (request.prevLogIndex > logCount ∨
          ∀ entry ∈ node.log[(request.prevLogIndex - 1).toNat]?,
            entry.term ≠ request.prevLogTerm) then (false, node)
    else if request.leaderCommit > node.commitIndex then
      (true,
        { node with
          commitIndex :=
            if request.leaderCommit < logCount then request.leaderCommit else logCount })
    else (true, node)

def heartbeatHandle (node : RaftNode) (msg : HeartbeatMessage) : RaftNode :=
  let node := node.adoptTerm msg.term
  if msg.term ≥ node.currentTerm then
    { node with
      currentLeader := msg.leaderId
      commitIndex :=
        if msg.commitIndex > node.commitIndex then msg.commitIndex else node.commitIndex }
  else node

/-- A leader's new entry; other nodes refuse. -/
def raftAppendLog (node : RaftNode) : RaftNode :=
  if node.currentRole = .leader then
    { node with
      log := node.log ++
        [{ index := UInt64.ofNat (node.log.length + 1), term := node.currentTerm }] }
  else node

/-! ## `raft_start_election` -/

/-- The candidacy: a new term, and a vote for the node itself. -/
def startElection (node : RaftNode) : RaftNode :=
  { node with
    currentRole := .candidate
    currentTerm := node.currentTerm + 1
    votedFor := node.selfNodeId
    votesReceived := 1
    electionInProgress := true }

def buildRequest (node : RaftNode) : VoteRequest where
  senderId := node.selfNodeId
  term := node.currentTerm
  lastLogIndex := node.lastLog.1
  lastLogTerm := node.lastLog.2

/-- The term of a response is not looked at. -/
def countVote (node : RaftNode) (voteGranted : Bool) : RaftNode :=
  if voteGranted then { node with votesReceived := node.votesReceived + 1 } else node

/-- Promotion goes by the number of votes alone. -/
def finishElection (node : RaftNode) (nodeCount : Nat) : RaftNode :=
  if node.votesReceived ≥ nodeCount / 2 + 1 then
    { node with
      currentRole := .leader
      currentLeader := node.selfNodeId
      electionInProgress := false }
  else { node with currentRole := .follower, electionInProgress := false }

/-- An election without interruptions; an answer is `none` where none came. -/
def raftStartElection (node : RaftNode) (nodeCount : Nat) (answers : List (Option Bool)) :
    RaftNode :=
  (answers.foldl (fun node answer => node.countVote (answer.getD false))
    node.startElection).finishElection nodeCount

end RaftNode

end Cluster
end InventixDB
