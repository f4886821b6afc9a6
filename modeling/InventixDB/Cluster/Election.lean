import InventixDB.Cluster.Voting
import Mathlib.Data.Finset.Card
import Mathlib.Data.List.Perm.Basic

/-!
# Election — the nodes of a cluster and their messages

Every node polls its peers over connections of their own while the others, and its own handlers,
go on.  Two majorities have a voter in common, and a voter has one vote a term, so only one
candidate can win a term, provided that it is still in that term when it counts.  The code does
not check this: whoever collects a majority becomes leader of whatever term it is in by then.
-/

namespace InventixDB
namespace Cluster

/-! ## The cluster -/

/-- The members, and the node array of each of them. -/
structure Members where
  ids : List NodeId
  nodes : NodeId → List NodeId
  nodup : ids.Nodup
  nonzero : ∀ i ∈ ids, i ≠ 0
  perm : ∀ i ∈ ids, (nodes i).Perm ids

/-- A vote request on its connection. -/
structure Poll where
  conn : Nat
  receiverId : NodeId
  request : VoteRequest
  deriving DecidableEq

/-- A call of `raft_start_election` under way.  `startTerm` and `voters` are history variables:
the term of the candidacy, and whose votes have been counted. -/
structure ElectionCall where
  startTerm : Term
  request : Option VoteRequest
  peers : List NodeId
  waiting : Option Poll
  voters : List NodeId
  deriving DecidableEq

/-- The nodes, and what is on the network.  `votes` and `leaders` are history variables: the votes
each node has granted, and who has become leader in which term. -/
structure ClusterSystem where
  nodes : NodeId → RaftNode
  elections : NodeId → Option ElectionCall
  sent : List Poll
  answered : List (Poll × VoteResponse)
  nextConn : Nat
  votes : NodeId → List (Term × NodeId)
  leaders : List (Term × NodeId)

def ClusterSystem.init : ClusterSystem where
  nodes := clusterInit
  elections := fun _ => none
  sent := []
  answered := []
  nextConn := 0
  votes := fun _ => []
  leaders := []

/-- Node `i` moves on: its state, the vote it may grant by that, and its election. -/
def ClusterSystem.move (s : ClusterSystem) (i : NodeId) (node : RaftNode)
    (vote : Option (Term × NodeId)) (election : Option ElectionCall) : ClusterSystem :=
  { s with
    nodes := Function.update s.nodes i node
    votes := Function.update s.votes i (s.votes i ++ vote.toList)
    elections := Function.update s.elections i election }

inductive ClusterAction
  | start (i : NodeId)
  | build (i : NodeId)
  | poll (i : NodeId)
  | skip (i : NodeId)
  | deliver (poll : Poll)
  | receive (i : NodeId) (response : VoteResponse)
  | giveUp (i : NodeId)
  | finish (i : NodeId)
  | heartbeat (i : NodeId) (msg : HeartbeatMessage)
  | appendEntries (i : NodeId) (request : AppendEntriesRequest)
  | appendLog (i : NodeId)
  deriving DecidableEq

variable (c : Members)

/-- The votes that make a leader. -/
def Members.majority (i : NodeId) : Nat :=
  (c.nodes i).length / 2 + 1

/-- The loop over the peers stands between two of them. -/
def ElectionCall.idle (call : ElectionCall) : Bool :=
  call.request.isSome && call.waiting.isNone

def ClusterSystem.step (s : ClusterSystem) : ClusterAction → Option ClusterSystem
  -- The heartbeat thread runs one election at a time.
  | .start i =>
      if i ∈ c.ids ∧ s.elections i = none then
        let node := (s.nodes i).startElection
        some (s.move i node (some (node.currentTerm, (s.nodes i).selfNodeId))
          (some {
            startTerm := node.currentTerm
            request := none
            peers := (c.nodes i).filter fun j => j ≠ i
            waiting := none
            voters := [] }))
      else none
  -- The request reads the term once more.
  | .build i =>
      (s.elections i).bind fun call =>
        if call.request = none then
          some (s.move i (s.nodes i) none
            (some { call with request := some (s.nodes i).buildRequest }))
        else none
  | .poll i =>
      (s.elections i).bind fun call =>
        match call.request, call.peers with
        | some request, j :: peers =>
            if call.waiting = none then
              let poll : Poll := { conn := s.nextConn, receiverId := j, request := request }
              some
                { s.move i (s.nodes i) none
                    (some { call with peers := peers, waiting := some poll }) with
                  sent := poll :: s.sent
                  nextConn := s.nextConn + 1 }
            else none
        | _, _ => none
  -- A peer that is dead or cannot be reached.
  | .skip i =>
      (s.elections i).bind fun call =>
        if call.idle ∧ call.peers ≠ [] then
          some (s.move i (s.nodes i) none (some { call with peers := call.peers.tail }))
        else none
  | .deliver poll =>
      if poll ∈ s.sent then
        let r := (s.nodes poll.receiverId).raftHandleVoteRequest poll.request
        some
          { s.move poll.receiverId r.2
              (if r.1.voteGranted then some (r.1.term, poll.request.senderId) else none)
              (s.elections poll.receiverId) with
            sent := s.sent.erase poll
            answered := (poll, r.1) :: s.answered }
      else none
  -- The response of the peer that was polled last.
  | .receive i response =>
      (s.elections i).bind fun call =>
        call.waiting.bind fun poll =>
          if (poll, response) ∈ s.answered then
            some (s.move i ((s.nodes i).countVote response.voteGranted) none
              (some { call with
                waiting := none
                voters :=
                  if response.voteGranted then poll.receiverId :: call.voters
                  else call.voters }))
          else none
  -- No response: lost, or too late.
  | .giveUp i =>
      (s.elections i).bind fun call =>
        if call.waiting = none then none
        else some (s.move i (s.nodes i) none (some { call with waiting := none }))
  | .finish i =>
      (s.elections i).bind fun call =>
        if call.idle ∧ call.peers = [] then
          some
            { s.move i ((s.nodes i).finishElection (c.nodes i).length) none none with
              leaders :=
                if (s.nodes i).votesReceived ≥ c.majority i then
                  ((s.nodes i).currentTerm, i) :: s.leaders
                else s.leaders }
        else none
  | .heartbeat i msg => some (s.move i ((s.nodes i).heartbeatHandle msg) none (s.elections i))
  | .appendEntries i request =>
      some (s.move i ((s.nodes i).raftHandleAppendEntries request).2 none (s.elections i))
  | .appendLog i => some (s.move i (s.nodes i).raftAppendLog none (s.elections i))

/-- A given sequence of steps. -/
def runCluster : ClusterSystem → List ClusterAction → Option ClusterSystem
  | s, [] => some s
  | s, a :: actions => (s.step c a).bind fun s' => runCluster s' actions

/-- At most one node has become leader in each term. -/
def OneLeaderPerTerm (leaders : List (Term × NodeId)) : Prop :=
  ∀ l ∈ leaders, ∀ l' ∈ leaders, l.1 = l'.1 → l.2 = l'.2

-- a search could settle on the instance that tries every pair of a term and a node
instance (leaders : List (Term × NodeId)) : Decidable (OneLeaderPerTerm leaders) :=
  haveI : DecidablePred fun l : Term × NodeId => ∀ l' ∈ leaders, l.1 = l'.1 → l.2 = l'.2 :=
    fun _ => List.decidableBAll _ _
  List.decidableBAll _ _

/-! ## Elections that are not superseded -/

/-- No election wraps the term around, and a candidate with a majority of votes is still in the
term of its candidacy when it counts them. -/
def ClusterSystem.Current (s : ClusterSystem) : ClusterAction → Prop
  | .start i => (s.nodes i).currentTerm.toNat + 1 < 2 ^ 64
  | .finish i =>
      ∀ call ∈ s.elections i, (s.nodes i).votesReceived ≥ c.majority i →
        (s.nodes i).currentTerm = call.startTerm
  | _ => True

instance (s : ClusterSystem) (a : ClusterAction) : Decidable (s.Current c a) := by
  cases a <;> dsimp only [ClusterSystem.Current] <;> infer_instance

def CurrentRun : ClusterSystem → List ClusterAction → Prop
  | _, [] => True
  | s, a :: actions => s.Current c a ∧ ∀ s' ∈ s.step c a, CurrentRun s' actions

instance decidableCurrentRun : (s : ClusterSystem) → (actions : List ClusterAction) →
    Decidable (CurrentRun c s actions)
  | _, [] => isTrue trivial
  | s, a :: actions =>
      haveI : DecidablePred fun s' : ClusterSystem => CurrentRun c s' actions :=
        fun s' => decidableCurrentRun s' actions
      inferInstanceAs
        (Decidable (s.Current c a ∧ ∀ s' ∈ s.step c a, CurrentRun c s' actions))

/-! ## What holds of an election under way -/

/-- Members asked so far or still to be asked, each of them once; `i` itself is the first. -/
def ElectionCall.roll (call : ElectionCall) (i : NodeId) : List NodeId :=
  i :: (call.voters ++ (call.waiting.toList.map Poll.receiverId ++ call.peers))

/-- The election of node `i`, with the node's state and the votes granted so far. -/
structure Polled (node : RaftNode) (votes : NodeId → List (Term × NodeId)) (i : NodeId)
    (call : ElectionCall) : Prop where
  start_le : call.startTerm.toNat ≤ node.currentTerm.toNat
  own : (call.startTerm, i) ∈ votes i
  request : ∀ r ∈ call.request, r.senderId = i ∧ call.startTerm.toNat ≤ r.term.toNat ∧
    r.term.toNat ≤ node.currentTerm.toNat
  waiting : ∀ p ∈ call.waiting, call.request = some p.request
  voters : ∀ v ∈ call.voters, ∃ r ∈ call.request, (r.term, i) ∈ votes v
  nodup : (call.roll i).Nodup
  members : ∀ v ∈ call.roll i, v ∈ c.ids
  count : node.votesReceived = call.voters.length + 1

structure ElectionInv (s : ClusterSystem) : Prop where
  selfNodeId : ∀ i, (s.nodes i).selfNodeId = i
  voted : ∀ i, Voted (s.nodes i) (s.votes i)
  sent : ∀ p ∈ s.sent, p.request.senderId ∈ c.ids
  answered : ∀ a ∈ s.answered, a.2.voteGranted = true →
    (a.1.request.term, a.1.request.senderId) ∈ s.votes a.1.receiverId
  elections : ∀ i, ∀ call ∈ s.elections i, Polled c (s.nodes i) s.votes i call
  leaders : ∀ l ∈ s.leaders, ∃ V : Finset NodeId, V ⊆ c.ids.toFinset ∧
    c.ids.length < 2 * V.card ∧ ∀ v ∈ V, l ∈ s.votes v

variable {c}

/-- An election under way does not mind a later term of its node, or further votes. -/
theorem Polled.mono {node node' : RaftNode} {votes votes' : NodeId → List (Term × NodeId)}
    {i : NodeId} {call : ElectionCall} (hp : Polled c node votes i call)
    (hterm : node.currentTerm.toNat ≤ node'.currentTerm.toNat)
    (hcount : node'.votesReceived = node.votesReceived)
    (hvotes : ∀ j, votes j ⊆ votes' j) : Polled c node' votes' i call where
  start_le := hp.start_le.trans hterm
  own := hvotes i hp.own
  request := by
    intro r hr
    obtain ⟨hsender, hstart, hle⟩ := hp.request r hr
    exact ⟨hsender, hstart, hle.trans hterm⟩
  waiting := hp.waiting
  voters := by
    intro v hv
    obtain ⟨r, hr, hvote⟩ := hp.voters v hv
    exact ⟨r, hr, hvotes v hvote⟩
  nodup := hp.nodup
  members := hp.members
  count := hcount.trans hp.count

section Move

variable {s : ClusterSystem} {i : NodeId} {node : RaftNode} {vote : Option (Term × NodeId)}
  {election : Option ElectionCall}

@[simp]
theorem nodes_move_self : (s.move i node vote election).nodes i = node := by
  exact Function.update_self ..

@[simp]
theorem votes_move_self : (s.move i node vote election).votes i = s.votes i ++ vote.toList := by
  exact Function.update_self ..

@[simp]
theorem elections_move_self : (s.move i node vote election).elections i = election := by
  exact Function.update_self ..

theorem nodes_move_of_ne {j : NodeId} (hj : j ≠ i) :
    (s.move i node vote election).nodes j = s.nodes j := by
  exact Function.update_of_ne hj ..

theorem votes_move_of_ne {j : NodeId} (hj : j ≠ i) :
    (s.move i node vote election).votes j = s.votes j := by
  exact Function.update_of_ne hj ..

theorem elections_move_of_ne {j : NodeId} (hj : j ≠ i) :
    (s.move i node vote election).elections j = s.elections j := by
  exact Function.update_of_ne hj ..

theorem votes_subset_move (s : ClusterSystem) (i : NodeId) (node : RaftNode)
    (vote : Option (Term × NodeId)) (election : Option ElectionCall) (j : NodeId) :
    s.votes j ⊆ (s.move i node vote election).votes j := by
  by_cases hj : j = i
  · subst hj
    rw [votes_move_self]
    exact List.subset_append_left _ _
  · rw [votes_move_of_ne hj]
    exact List.Subset.refl _

/-- One node's move, if its own election stays in order. -/
theorem ElectionInv.move (hs : ElectionInv c s) (hmoves : Moves (s.nodes i) node vote)
    (hnonzero : ∀ v ∈ vote, v.2 ≠ 0)
    (hpolled : ∀ call ∈ election,
      Polled c node (s.move i node vote election).votes i call) :
    ElectionInv c (s.move i node vote election) := by
  have hvotes := votes_subset_move s i node vote election
  refine ⟨?_, ?_, hs.sent, ?_, ?_, ?_⟩
  · intro j
    by_cases hj : j = i
    · subst hj
      rw [nodes_move_self]
      exact hmoves.selfNodeId.trans (hs.selfNodeId j)
    · rw [nodes_move_of_ne hj]
      exact hs.selfNodeId j
  · intro j
    by_cases hj : j = i
    · subst hj
      rw [nodes_move_self, votes_move_self]
      exact (hs.voted j).moves hmoves hnonzero
    · rw [nodes_move_of_ne hj, votes_move_of_ne hj]
      exact hs.voted j
  · intro a ha hgranted
    exact hvotes _ (hs.answered a ha hgranted)
  · intro j call hcall
    by_cases hj : j = i
    · subst hj
      rw [elections_move_self] at hcall
      rw [nodes_move_self]
      exact hpolled call hcall
    · rw [elections_move_of_ne hj] at hcall
      rw [nodes_move_of_ne hj]
      exact (hs.elections j call hcall).mono le_rfl rfl hvotes
  · intro l hl
    obtain ⟨V, hsub, hcard, hV⟩ := hs.leaders l hl
    exact ⟨V, hsub, hcard, fun v hv => hvotes v (hV v hv)⟩

/-- A handler's move leaves the election of its node alone. -/
theorem ElectionInv.handle (hs : ElectionInv c s) (hmoves : Moves (s.nodes i) node vote)
    (hnonzero : ∀ v ∈ vote, v.2 ≠ 0)
    (hcount : node.votesReceived = (s.nodes i).votesReceived) :
    ElectionInv c (s.move i node vote (s.elections i)) := by
  refine hs.move hmoves hnonzero ?_
  intro call hcall
  exact (hs.elections i call hcall).mono hmoves.le hcount (votes_subset_move s i node vote _)

/-- A step of an election that leaves the node alone. -/
theorem ElectionInv.call (hs : ElectionInv c s) {call : ElectionCall}
    (hpolled : Polled c (s.nodes i) s.votes i call) :
    ElectionInv c (s.move i (s.nodes i) none (some call)) := by
  refine hs.move (moves_of_eq rfl rfl rfl) (by simp) ?_
  rintro call' hcall
  cases hcall
  exact hpolled.mono le_rfl rfl (votes_subset_move s i _ none _)

end Move

/-! ## One step -/

/-- A granted vote is one for the term of the request. -/
theorem term_of_granted {node : RaftNode} {request : VoteRequest}
    (hgranted : (node.raftHandleVoteRequest request).1.voteGranted = true) :
    (node.raftHandleVoteRequest request).1.term = request.term := by
  unfold RaftNode.raftHandleVoteRequest at hgranted ⊢
  by_cases hlt : request.term < node.currentTerm
  · rw [if_pos hlt] at hgranted
    cases hgranted
  · rw [if_neg hlt] at hgranted ⊢
    dsimp only at hgranted ⊢
    split at hgranted
    · next hgrant =>
        rw [if_pos hgrant]
        unfold RaftNode.adoptTerm
        dsimp only
        split
        · rfl
        · next hge =>
            exact UInt64.le_antisymm (UInt64.not_lt.mp hlt) (UInt64.not_lt.mp hge)
    · cases hgranted

theorem votesReceived_handleVote (node : RaftNode) (request : VoteRequest) :
    (node.raftHandleVoteRequest request).2.votesReceived = node.votesReceived := by
  unfold RaftNode.raftHandleVoteRequest RaftNode.adoptTerm
  split
  · rfl
  · dsimp only
    split <;> split <;> rfl

theorem votesReceived_handleAppend (node : RaftNode) (request : AppendEntriesRequest) :
    (node.raftHandleAppendEntries request).2.votesReceived = node.votesReceived := by
  unfold RaftNode.raftHandleAppendEntries
  split
  · rfl
  · dsimp only
    split
    · rfl
    · split <;> rfl

theorem votesReceived_heartbeat (node : RaftNode) (msg : HeartbeatMessage) :
    (node.heartbeatHandle msg).votesReceived = node.votesReceived := by
  unfold RaftNode.heartbeatHandle RaftNode.adoptTerm
  dsimp only
  split <;> split <;> rfl

theorem votesReceived_appendLog (node : RaftNode) :
    node.raftAppendLog.votesReceived = node.votesReceived := by
  unfold RaftNode.raftAppendLog
  split <;> rfl

/-- The peers of a member, with the member itself, are the members. -/
theorem Members.roll_start (c : Members) {i : NodeId} (hi : i ∈ c.ids) :
    (i :: (c.nodes i).filter fun j => j ≠ i).Nodup ∧
      ∀ v ∈ i :: (c.nodes i).filter fun j => j ≠ i, v ∈ c.ids := by
  have hperm := c.perm i hi
  constructor
  · refine List.nodup_cons.mpr ⟨by simp, ?_⟩
    exact (hperm.nodup_iff.mpr c.nodup).filter _
  · intro v hv
    rcases List.mem_cons.mp hv with rfl | hv
    · exact hi
    · exact hperm.mem_iff.mp (List.mem_of_mem_filter hv)

/-- A majority of the members, all of whom have voted for `i` in the term of its candidacy. -/
theorem Polled.quorum {s : ClusterSystem} {i : NodeId} {call : ElectionCall}
    (hp : Polled c (s.nodes i) s.votes i call)
    (hterm : (s.nodes i).currentTerm = call.startTerm)
    (hmajority : (s.nodes i).votesReceived ≥ c.majority i) :
    ∃ V : Finset NodeId, V ⊆ c.ids.toFinset ∧ c.ids.length < 2 * V.card ∧
      ∀ v ∈ V, ((s.nodes i).currentTerm, i) ∈ s.votes v := by
  have hsublist : (i :: call.voters).Sublist (call.roll i) :=
    (List.sublist_append_left _ _).cons_cons i
  have hnodup : (i :: call.voters).Nodup := hp.nodup.sublist hsublist
  have hmembers : ∀ v ∈ i :: call.voters, v ∈ c.ids :=
    fun v hv => hp.members v (hsublist.subset hv)
  have hi : i ∈ c.ids := hmembers i List.mem_cons_self
  refine ⟨(i :: call.voters).toFinset, ?_, ?_, ?_⟩
  · intro v hv
    exact List.mem_toFinset.mpr (hmembers v (List.mem_toFinset.mp hv))
  · rw [List.toFinset_card_of_nodup hnodup, List.length_cons, ← hp.count]
    unfold Members.majority at hmajority
    rw [(c.perm i hi).length_eq] at hmajority
    omega
  · intro v hv
    rcases List.mem_cons.mp (List.mem_toFinset.mp hv) with rfl | hv
    · rw [hterm]
      exact hp.own
    · -- The request was built between the candidacy and now, and the term is still the same.
      obtain ⟨r, hr, hvote⟩ := hp.voters v hv
      obtain ⟨_, hstart, hle⟩ := hp.request r hr
      have hsame : r.term = (s.nodes i).currentTerm := by
        refine UInt64.toNat_inj.mp (Nat.le_antisymm hle ?_)
        rwa [hterm]
      rwa [hsame] at hvote

/-- A candidacy puts an election of its own in order. -/
theorem ElectionInv.start {s : ClusterSystem} {i : NodeId} (hs : ElectionInv c s)
    (hi : i ∈ c.ids) (hwrap : (s.nodes i).currentTerm.toNat + 1 < 2 ^ 64) :
    ElectionInv c
      (s.move i (s.nodes i).startElection
        (some ((s.nodes i).startElection.currentTerm, (s.nodes i).selfNodeId))
        (some {
          startTerm := (s.nodes i).startElection.currentTerm
          request := none
          peers := (c.nodes i).filter fun j => j ≠ i
          waiting := none
          voters := [] })) := by
  have hself := hs.selfNodeId i
  refine hs.move (moves_startElection hwrap) ?_ ?_
  · rintro v hv
    cases hv
    rw [hself]
    exact c.nonzero i hi
  · rintro call hcall
    cases hcall
    obtain ⟨hnodup, hmembers⟩ := c.roll_start hi
    exact {
      start_le := le_rfl
      own := by simp [hself]
      request := by simp
      waiting := by simp
      voters := by simp
      nodup := by simpa [ElectionCall.roll] using hnodup
      members := by simpa [ElectionCall.roll] using hmembers
      count := rfl }

/-- The peer that is polled stays on the roll. -/
theorem Polled.poll {node : RaftNode} {votes : NodeId → List (Term × NodeId)} {i j : NodeId}
    {startTerm : Term} {request : VoteRequest} {peers voters : List NodeId}
    (hp : Polled c node votes i
      { startTerm := startTerm, request := some request, peers := j :: peers, waiting := none,
        voters := voters }) (conn : Nat) :
    Polled c node votes i
      { startTerm := startTerm, request := some request, peers := peers,
        waiting := some { conn := conn, receiverId := j, request := request },
        voters := voters } where
  start_le := hp.start_le
  own := hp.own
  request := hp.request
  waiting := by
    rintro p hp'
    cases hp'
    rfl
  voters := hp.voters
  nodup := hp.nodup
  members := hp.members
  count := hp.count

/-- A response that has come counts the vote of the peer that was polled. -/
theorem Polled.receive {node : RaftNode} {votes : NodeId → List (Term × NodeId)} {i : NodeId}
    {call : ElectionCall} (hp : Polled c node votes i call) {poll : Poll} {voteGranted : Bool}
    (hwaiting : call.waiting = some poll)
    (hvote : voteGranted = true → (poll.request.term, poll.request.senderId) ∈
      votes poll.receiverId) :
    Polled c (node.countVote voteGranted) votes i
      { call with
        waiting := none
        voters := if voteGranted then poll.receiverId :: call.voters else call.voters } := by
  have hterm := (moves_countVote node voteGranted).le
  have hrequest := hp.waiting poll hwaiting
  obtain ⟨hsender, _, _⟩ := hp.request poll.request hrequest
  have hroll : call.roll i =
      i :: (call.voters ++ (poll.receiverId :: call.peers)) := by
    simp [ElectionCall.roll, hwaiting]
  have hnodup := hp.nodup
  have hmembers := hp.members
  rw [hroll] at hnodup hmembers
  cases voteGranted with
  | false =>
      have hsub : (i :: (call.voters ++ call.peers)).Sublist
          (i :: (call.voters ++ (poll.receiverId :: call.peers))) :=
        ((List.sublist_cons_self _ _).append_left _).cons_cons i
      exact {
        start_le := hp.start_le
        own := hp.own
        request := hp.request
        waiting := by simp
        voters := hp.voters
        nodup := by simpa [ElectionCall.roll] using hnodup.sublist hsub
        members := fun v hv => hmembers v (hsub.subset (by simpa [ElectionCall.roll] using hv))
        count := hp.count }
  | true =>
      -- The peer moves from those asked to those counted.
      have hperm : (i :: (poll.receiverId :: call.voters ++ call.peers)).Perm
          (i :: (call.voters ++ (poll.receiverId :: call.peers))) :=
        (List.perm_middle.symm).cons i
      exact {
        start_le := hp.start_le
        own := hp.own
        request := hp.request
        waiting := by simp
        voters := by
          intro v hv
          rcases List.mem_cons.mp hv with rfl | hv
          · refine ⟨poll.request, hrequest, ?_⟩
            rw [← hsender]
            exact hvote rfl
          · exact hp.voters v hv
        nodup := by simpa [ElectionCall.roll] using hperm.nodup_iff.mpr hnodup
        members := fun v hv => hmembers v (hperm.mem_iff.mp (by simpa [ElectionCall.roll] using hv))
        count := by
          have hcount := hp.count
          simp only [RaftNode.countVote, if_true, List.length_cons]
          omega }

/-- Every step keeps the votes in order, if elections stay current. -/
theorem ElectionInv.step {s s' : ClusterSystem} (hs : ElectionInv c s) {a : ClusterAction}
    (hcurrent : s.Current c a) (hstep : s.step c a = some s') : ElectionInv c s' := by
  cases a with
  | start i =>
      obtain ⟨⟨hi, _⟩, hstep⟩ := Option.ite_none_right_eq_some.mp hstep
      cases hstep
      exact hs.start hi hcurrent
  | build i =>
      obtain ⟨call, hcall, hstep⟩ := Option.bind_eq_some_iff.mp hstep
      obtain ⟨hnone, hstep⟩ := Option.ite_none_right_eq_some.mp hstep
      cases hstep
      have hp := hs.elections i call hcall
      refine hs.call { hp with request := ?_, waiting := ?_, voters := ?_ }
      · rintro r hr
        cases hr
        exact ⟨hs.selfNodeId i, hp.start_le, le_rfl⟩
      · intro p hwaiting
        have hsome := hp.waiting p hwaiting
        rw [hnone] at hsome
        cases hsome
      · intro v hv
        obtain ⟨r, hr, _⟩ := hp.voters v hv
        rw [hnone] at hr
        cases hr
  | poll i =>
      obtain ⟨call, hcall, hstep⟩ := Option.bind_eq_some_iff.mp hstep
      have hp := hs.elections i call hcall
      obtain ⟨startTerm, request, peers, waiting, voters⟩ := call
      cases request with
      | none => cases hstep
      | some request =>
          cases peers with
          | nil => cases hstep
          | cons j peers =>
              obtain ⟨hidle, hstep⟩ := Option.ite_none_right_eq_some.mp hstep
              cases hstep
              cases (show waiting = none from hidle)
              obtain ⟨hsender, _, _⟩ := hp.request request rfl
              have hcalled := hs.call (hp.poll s.nextConn)
              refine { hcalled with sent := ?_ }
              intro p hsent
              rcases List.mem_cons.mp hsent with rfl | hsent
              · dsimp only
                rw [hsender]
                exact hp.members i List.mem_cons_self
              · exact hs.sent p hsent
  | skip i =>
      obtain ⟨call, hcall, hstep⟩ := Option.bind_eq_some_iff.mp hstep
      obtain ⟨_, hstep⟩ := Option.ite_none_right_eq_some.mp hstep
      cases hstep
      have hp := hs.elections i call hcall
      have hsub : ({ call with peers := call.peers.tail }.roll i).Sublist (call.roll i) :=
        (((List.tail_sublist _).append_left _).append_left _).cons_cons i
      exact hs.call { hp with
        nodup := hp.nodup.sublist hsub
        members := fun v hv => hp.members v (hsub.subset hv) }
  | deliver poll =>
      obtain ⟨hsent, hstep⟩ := Option.ite_none_right_eq_some.mp hstep
      cases hstep
      have hmoves := moves_raftHandleVoteRequest (s.nodes poll.receiverId) poll.request
      have hhandled := hs.handle hmoves
        (by
          rintro v hv
          obtain ⟨_, hv⟩ := Option.ite_none_right_eq_some.mp hv
          cases hv
          exact c.nonzero _ (hs.sent poll hsent))
        (votesReceived_handleVote _ _)
      refine { hhandled with sent := ?_, answered := ?_ }
      · intro p hp
        exact hs.sent p (List.mem_of_mem_erase hp)
      · intro a ha hgranted
        rcases List.mem_cons.mp ha with rfl | ha
        · dsimp only at hgranted ⊢
          rw [if_pos hgranted, term_of_granted hgranted, votes_move_self]
          simp
        · exact hhandled.answered a ha hgranted
  | receive i response =>
      obtain ⟨call, hcall, hstep⟩ := Option.bind_eq_some_iff.mp hstep
      obtain ⟨poll, hwaiting, hstep⟩ := Option.bind_eq_some_iff.mp hstep
      obtain ⟨hanswered, hstep⟩ := Option.ite_none_right_eq_some.mp hstep
      cases hstep
      have hp := hs.elections i call hcall
      refine hs.move (moves_countVote _ _) (by simp) ?_
      rintro call' hcall'
      cases hcall'
      exact (hp.receive hwaiting (hs.answered _ hanswered)).mono le_rfl rfl
        (votes_subset_move s i _ none _)
  | giveUp i =>
      obtain ⟨call, hcall, hstep⟩ := Option.bind_eq_some_iff.mp hstep
      obtain ⟨_, hstep⟩ := Option.ite_none_left_eq_some.mp hstep
      cases hstep
      have hp := hs.elections i call hcall
      have hsub : ({ call with waiting := none }.roll i).Sublist (call.roll i) :=
        ((List.sublist_append_right _ _).append_left _).cons_cons i
      exact hs.call { hp with
        waiting := by simp
        nodup := hp.nodup.sublist hsub
        members := fun v hv => hp.members v (hsub.subset hv) }
  | finish i =>
      obtain ⟨call, hcall, hstep⟩ := Option.bind_eq_some_iff.mp hstep
      obtain ⟨_, hstep⟩ := Option.ite_none_right_eq_some.mp hstep
      cases hstep
      have hfinished : ElectionInv c (s.move i _ none none) :=
        hs.move (moves_finishElection (s.nodes i) (c.nodes i).length) (by simp) (by simp)
      refine { hfinished with leaders := ?_ }
      intro l hl
      dsimp only at hl
      split at hl
      · next hmajority =>
          rcases List.mem_cons.mp hl with rfl | hl
          · -- The new leader has a majority of its own term behind it.
            have hp := hs.elections i call hcall
            obtain ⟨V, hsub, hcard, hV⟩ := hp.quorum (hcurrent call hcall hmajority) hmajority
            have hvotes := votes_subset_move s i
              ((s.nodes i).finishElection (c.nodes i).length) none none
            exact ⟨V, hsub, hcard, fun v hv => hvotes v (hV v hv)⟩
          · exact hfinished.leaders l hl
      · exact hfinished.leaders l hl
  | heartbeat i msg =>
      cases hstep
      exact hs.handle (moves_heartbeatHandle _ _) (by simp) (votesReceived_heartbeat _ _)
  | appendEntries i request =>
      cases hstep
      exact hs.handle (moves_raftHandleAppendEntries _ _) (by simp)
        (votesReceived_handleAppend _ _)
  | appendLog i =>
      cases hstep
      exact hs.handle (moves_raftAppendLog _) (by simp) (votesReceived_appendLog _)

/-! ## Whole runs -/

theorem electionInv_init (c : Members) : ElectionInv c ClusterSystem.init where
  selfNodeId := fun i => rfl
  voted := fun i => voted_nil _
  sent := by simp [ClusterSystem.init]
  answered := by simp [ClusterSystem.init]
  elections := by simp [ClusterSystem.init]
  leaders := by simp [ClusterSystem.init]

theorem ElectionInv.run {s s' : ClusterSystem} (hs : ElectionInv c s)
    {actions : List ClusterAction} (hrun : runCluster c s actions = some s')
    (hcurrent : CurrentRun c s actions) : ElectionInv c s' := by
  induction actions generalizing s with
  | nil =>
      cases hrun
      exact hs
  | cons a actions ih =>
      obtain ⟨hone, hrest⟩ := hcurrent
      obtain ⟨s₁, hstep, hrun⟩ := Option.bind_eq_some_iff.mp hrun
      exact ih (hs.step hone hstep) hrun (hrest s₁ hstep)

/-- Two winners of a term share a voter, who has voted for one candidate only. -/
theorem ElectionInv.oneLeader {s : ClusterSystem} (hs : ElectionInv c s) :
    OneLeaderPerTerm s.leaders := by
  intro l hl l' hl' hterm
  obtain ⟨V, hsub, hcard, hV⟩ := hs.leaders l hl
  obtain ⟨V', hsub', hcard', hV'⟩ := hs.leaders l' hl'
  have hlt : c.ids.toFinset.card < V.card + V'.card := by
    rw [List.toFinset_card_of_nodup c.nodup]
    omega
  obtain ⟨v, hv⟩ := Finset.inter_nonempty_of_card_lt_card_add_card hsub hsub' hlt
  obtain ⟨hv, hv'⟩ := Finset.mem_inter.mp hv
  exact (hs.voted v).unique l (hV v hv) l' (hV' v hv') hterm

/-- In a run whose elections stay current, a term has one leader at most. -/
theorem oneLeader_of_current (c : Members) (actions : List ClusterAction) (s : ClusterSystem)
    (hrun : runCluster c ClusterSystem.init actions = some s)
    (hcurrent : CurrentRun c ClusterSystem.init actions) : OneLeaderPerTerm s.leaders := by
  exact ((electionInv_init c).run hrun hcurrent).oneLeader

/-- Three nodes that list each other. -/
def threeNodes : Members where
  ids := [1, 2, 3]
  nodes := fun i =>
    if i = 2 then [2, 1, 3] else if i = 3 then [3, 1, 2] else [1, 2, 3]
  nodup := by decide
  nonzero := by
    intro i hi
    simp only [List.mem_cons, List.not_mem_nil, or_false] at hi
    rcases hi with rfl | rfl | rfl <;> decide
  perm := by
    intro i hi
    simp only [List.mem_cons, List.not_mem_nil, or_false] at hi
    rcases hi with rfl | rfl | rfl <;> decide

/-- The vote request of node `sender` to `receiver` on connection `conn`. -/
def ask (conn : Nat) (sender receiver : NodeId) (term : Term) : Poll where
  conn := conn
  receiverId := receiver
  request := { senderId := sender, term := term, lastLogIndex := 0, lastLogTerm := 0 }

/-- Nodes 1 and 2 become candidates of term 1; node 3 votes for 2, and a heartbeat of the new
leader reaches node 1 while it still polls. -/
theorem oneLeader_of_current_rivals :
    ∃ s, runCluster threeNodes ClusterSystem.init
        [.start 1, .build 1, .start 2, .build 2, .poll 1, .poll 2, .deliver (ask 0 1 2 1),
          .receive 1 { term := 1, voteGranted := false }, .giveUp 2, .poll 2,
          .deliver (ask 2 2 3 1), .receive 2 { term := 1, voteGranted := true }, .finish 2,
          .heartbeat 1 { term := 1, commitIndex := 0, leaderId := 2 }, .skip 1, .finish 1] =
          some s ∧
      OneLeaderPerTerm s.leaders := by
  obtain ⟨s, hrun⟩ := Option.isSome_iff_exists.mp
    (show (runCluster threeNodes ClusterSystem.init
        [.start 1, .build 1, .start 2, .build 2, .poll 1, .poll 2, .deliver (ask 0 1 2 1),
          .receive 1 { term := 1, voteGranted := false }, .giveUp 2, .poll 2,
          .deliver (ask 2 2 3 1), .receive 2 { term := 1, voteGranted := true }, .finish 2,
          .heartbeat 1 { term := 1, commitIndex := 0, leaderId := 2 }, .skip 1,
          .finish 1]).isSome = true by decide)
  exact ⟨s, hrun, oneLeader_of_current threeNodes _ s hrun (by decide)⟩

/-- Node 1 has node 2's vote for term 1 when node 2 starts an election for term 2 and gets its
vote.  Node 2 wins; then node 1 counts its two votes and becomes leader of term 2 as well. -/
theorem superseded_candidate_leads :
    (runCluster threeNodes ClusterSystem.init
        [.start 1, .build 1, .poll 1, .deliver (ask 0 1 2 1),
          .receive 1 { term := 1, voteGranted := true }, .start 2, .build 2, .poll 2,
          .deliver (ask 1 2 1 2), .receive 2 { term := 2, voteGranted := true }, .skip 2,
          .finish 2, .skip 1, .finish 1]).any
      (fun s => ¬ OneLeaderPerTerm s.leaders) = true := by
  decide

end Cluster
end InventixDB
