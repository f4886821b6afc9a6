import InventixDB.Cluster.Raft
import InventixDB.Lib.FirstMatch
import InventixDB.Lib.Runs
import Mathlib.Data.List.Nodup
import Mathlib.Tactic.SplitIfs

/-!
# Ownership — which node holds which partition

Ownership is stored twice: a partition names its primary and its replicas, and a node lists its
partitions.  `partition_assign` adds to both sides and takes nothing from the previous owner.
-/

namespace InventixDB
namespace Cluster

open Lib

/-! ## Data -/

abbrev PartitionId := UInt32

inductive NodeStatus
  | unknown
  | healthy
  | degraded
  | unreachable
  | dead
  deriving DecidableEq, Repr

structure ClusterNode where
  nodeId : NodeId
  status : NodeStatus
  partitions : List PartitionId
  deriving DecidableEq, Repr

/-- `partition_id` is the position in the array. -/
structure PartitionInfo where
  primaryNode : NodeId
  replicaNodes : List NodeId
  deriving DecidableEq, Repr

structure ClusterState where
  nodes : List ClusterNode
  partitions : List PartitionInfo
  replicationFactor : Nat
  currentRole : NodeRole
  deriving DecidableEq, Repr

namespace ClusterNode

abbrev Live (node : ClusterNode) : Prop := node.status ≠ .dead

def addPartition (partitionId : PartitionId) (node : ClusterNode) : ClusterNode :=
  { node with partitions := node.partitions ++ [partitionId] }

/-- `source->partition_count--` -/
def dropPartition (node : ClusterNode) : ClusterNode :=
  { node with partitions := node.partitions.dropLast }

end ClusterNode

namespace PartitionInfo

def assign (nodeId : NodeId) (isPrimary : Bool) (replicationFactor : Nat) (p : PartitionInfo) :
    PartitionInfo :=
  if isPrimary then { p with primaryNode := nodeId }
  else if p.replicaNodes.length < replicationFactor then
    { p with replicaNodes := p.replicaNodes ++ [nodeId] }
  else p

/-- The first replica becomes the primary. -/
def promoteReplica (p : PartitionInfo) : PartitionInfo :=
  match p.replicaNodes with
  | [] => p
  | replica :: rest => { primaryNode := replica, replicaNodes := rest }

/-- The node is the primary, or one of the replicas. -/
def OwnedBy (p : PartitionInfo) (nodeId : NodeId) : Prop :=
  nodeId = p.primaryNode ∨ nodeId ∈ p.replicaNodes

end PartitionInfo

namespace ClusterState

def partitionInit (cluster : ClusterState) (numPartitions : Nat) : ClusterState :=
  { cluster with
    partitions := List.replicate numPartitions { primaryNode := 0, replicaNodes := [] } }

/-- A node that is not in the cluster gets no list entry. -/
def partitionAssign (cluster : ClusterState) (partitionId : PartitionId) (nodeId : NodeId)
    (isPrimary : Bool) : ClusterState :=
  if partitionId.toNat < cluster.partitions.length then
    { cluster with
      partitions := cluster.partitions.modify partitionId.toNat
        (PartitionInfo.assign nodeId isPrimary cluster.replicationFactor)
      nodes := cluster.nodes.modify (cluster.nodes.findIdx fun node => node.nodeId = nodeId)
        (ClusterNode.addPartition partitionId) }
  else cluster

/-! ## Rebalancing -/

def healthyNodes (cluster : ClusterState) : Nat :=
  cluster.nodes.countP fun node => decide node.Live

def overloaded (cluster : ClusterState) (targetPerNode source : Nat) : Bool :=
  match cluster.nodes[source]? with
  | some node => decide (node.partitions.length > targetPerNode + 1)
  | none => false

/-- The partition that is moved next, and the node that gets it: the first one underloaded. -/
def nextMove (cluster : ClusterState) (targetPerNode source : Nat) :
    Option (PartitionId × ClusterNode) := do
  let node ← cluster.nodes[source]?
  let partitionId ← node.partitions.getLast?
  let target ← cluster.nodes.find? fun node =>
    decide node.Live && decide (node.partitions.length < targetPerNode)
  return (partitionId, target)

def dropPartition (cluster : ClusterState) (source : Nat) : ClusterState :=
  { cluster with nodes := cluster.nodes.modify source ClusterNode.dropPartition }

/-- A round that finds no node changes nothing, and neither does any round after it. -/
def movePartition (cluster : ClusterState) (targetPerNode source : Nat) : Option ClusterState :=
  (cluster.nextMove targetPerNode source).map fun move =>
    (cluster.dropPartition source).partitionAssign move.1 move.2.nodeId true

/-- The `while` loop: every round takes a partition from the source. -/
def drain (targetPerNode : Nat) (cluster : ClusterState) (source : Nat) : Option ClusterState :=
  match cluster.nodes[source]? with
  | some node =>
      if node.Live then
        whileLoop (fun cluster => cluster.overloaded targetPerNode source)
          (fun cluster => cluster.movePartition targetPerNode source) node.partitions.length cluster
      else some cluster
  | none => some cluster

def targetPerNode (cluster : ClusterState) : Nat :=
  cluster.partitions.length / cluster.healthyNodes

/-- `none` for a loop that goes on forever. -/
def rebalancePartitions (cluster : ClusterState) : Option ClusterState :=
  if cluster.currentRole ≠ .leader ∨ cluster.healthyNodes = 0 then some cluster
  else (List.range cluster.nodes.length).foldlM (drain cluster.targetPerNode) cluster

/-- `none` for an id outside the array. -/
def promote (cluster : ClusterState) (partitionId : PartitionId) : Option ClusterState :=
  if partitionId.toNat < cluster.partitions.length then
    some { cluster with
      partitions := cluster.partitions.modify partitionId.toNat PartitionInfo.promoteReplica }
  else none

/-- The argument is a pointer into the array of nodes. -/
def rebalanceOnLeave (cluster : ClusterState) (left : Nat) : Option ClusterState :=
  if cluster.currentRole ≠ .leader then some cluster
  else do
    let leftNode ← cluster.nodes[left]?
    let cluster ← leftNode.partitions.foldlM promote cluster
    cluster.rebalancePartitions

/-- The health check marks nodes as dead before it calls `rebalance_on_leave`. -/
inductive Action
  | assign (partitionId : PartitionId) (nodeId : NodeId) (isPrimary : Bool)
  | rebalance
  | markDead (node : Nat)
  | leave (left : Nat)

def markDead (cluster : ClusterState) (node : Nat) : ClusterState :=
  { cluster with nodes := cluster.nodes.modify node fun node => { node with status := .dead } }

def act (cluster : ClusterState) : Action → Option ClusterState
  | .assign partitionId nodeId isPrimary =>
      some (cluster.partitionAssign partitionId nodeId isPrimary)
  | .rebalance => cluster.rebalancePartitions
  | .markDead node => some (cluster.markDead node)
  | .leave left => cluster.rebalanceOnLeave left

/-! ## Consistent ownership -/

def Owned (cluster : ClusterState) (partitionId : PartitionId) (nodeId : NodeId) : Prop :=
  ∃ p ∈ cluster.partitions[partitionId.toNat]?, p.OwnedBy nodeId

/-- The lists of the live nodes agree with the partitions, and no node has two roles in one. -/
structure Consistent (cluster : ClusterState) : Prop where
  listed : ∀ node ∈ cluster.nodes, node.Live → ∀ partitionId,
    partitionId ∈ node.partitions ↔ cluster.Owned partitionId node.nodeId
  nodup : ∀ node ∈ cluster.nodes, node.Live → node.partitions.Nodup
  oneRole : ∀ p ∈ cluster.partitions, p.primaryNode ∉ p.replicaNodes

/-- No live node has the id. -/
def Absent (cluster : ClusterState) (nodeId : NodeId) : Prop :=
  ∀ node ∈ cluster.nodes, node.nodeId = nodeId → ¬ node.Live

/-- A new primary is no replica, and the old one no live node.  A new replica has no role yet, and
there is room for it, unless it is no live node. -/
def AssignFits (cluster : ClusterState) (partitionId : PartitionId) (nodeId : NodeId)
    (isPrimary : Bool) : Prop :=
  ∀ p ∈ cluster.partitions[partitionId.toNat]?,
    if isPrimary then nodeId ∉ p.replicaNodes ∧ cluster.Absent p.primaryNode
    else if p.replicaNodes.length < cluster.replicationFactor then
      nodeId ≠ p.primaryNode ∧ (nodeId ∈ p.replicaNodes → cluster.Absent nodeId)
    else cluster.Absent nodeId

/-- The partition is taken from its primary, and given to a node that is no replica of it. -/
def MoveFits (targetPerNode source : Nat) (cluster : ClusterState) : Prop :=
  ∀ node ∈ cluster.nodes[source]?, ∀ move ∈ cluster.nextMove targetPerNode source,
    ∀ p ∈ cluster.partitions[move.1.toNat]?,
      p.primaryNode = node.nodeId ∧ move.2.nodeId ∉ p.replicaNodes

def DrainFits (targetPerNode : Nat) (cluster : ClusterState) (source : Nat) : Prop :=
  ∀ node ∈ cluster.nodes[source]?, node.Live →
    RoundsFit (fun cluster => cluster.overloaded targetPerNode source)
      (fun cluster => cluster.movePartition targetPerNode source)
      (MoveFits targetPerNode source) node.partitions.length cluster

def RebalanceFits (cluster : ClusterState) : Prop :=
  cluster.currentRole = .leader →
    StepsFit (drain cluster.targetPerNode) (DrainFits cluster.targetPerNode) cluster
      (List.range cluster.nodes.length)

/-- The primary that is replaced is no live node, and the new one is listed once. -/
def PromoteFits (cluster : ClusterState) (partitionId : PartitionId) : Prop :=
  ∀ p ∈ cluster.partitions[partitionId.toNat]?, ∀ replica ∈ p.replicaNodes.head?,
    cluster.Absent p.primaryNode ∧ replica ∉ p.replicaNodes.tail

def LeaveFits (cluster : ClusterState) (left : Nat) : Prop :=
  cluster.currentRole = .leader → ∀ leftNode ∈ cluster.nodes[left]?,
    StepsFit promote PromoteFits cluster leftNode.partitions ∧
      ∀ after ∈ leftNode.partitions.foldlM promote cluster, after.RebalanceFits

def ActionFits (cluster : ClusterState) : Action → Prop
  | .assign partitionId nodeId isPrimary => cluster.AssignFits partitionId nodeId isPrimary
  | .rebalance => cluster.RebalanceFits
  | .markDead _ => True
  | .leave left => cluster.LeaveFits left

instance decidableAbsent (cluster : ClusterState) (nodeId : NodeId) :
    Decidable (cluster.Absent nodeId) :=
  inferInstanceAs (Decidable (∀ node ∈ cluster.nodes, _))

instance decidableAssignFits (cluster : ClusterState) (partitionId : PartitionId)
    (nodeId : NodeId) (isPrimary : Bool) :
    Decidable (cluster.AssignFits partitionId nodeId isPrimary) :=
  inferInstanceAs (Decidable (∀ p ∈ cluster.partitions[partitionId.toNat]?, _))

instance decidableMoveFits (targetPerNode source : Nat) (cluster : ClusterState) :
    Decidable (MoveFits targetPerNode source cluster) :=
  inferInstanceAs (Decidable (∀ node ∈ cluster.nodes[source]?, _))

instance decidableDrainFits (targetPerNode : Nat) (cluster : ClusterState) (source : Nat) :
    Decidable (DrainFits targetPerNode cluster source) :=
  inferInstanceAs (Decidable (∀ node ∈ cluster.nodes[source]?, _))

instance decidableRebalanceFits (cluster : ClusterState) : Decidable cluster.RebalanceFits :=
  inferInstanceAs (Decidable (_ → _))

instance decidablePromoteFits (cluster : ClusterState) (partitionId : PartitionId) :
    Decidable (cluster.PromoteFits partitionId) :=
  inferInstanceAs (Decidable (∀ p ∈ cluster.partitions[partitionId.toNat]?, _))

instance decidableLeaveFits (cluster : ClusterState) (left : Nat) :
    Decidable (cluster.LeaveFits left) :=
  inferInstanceAs (Decidable (_ → _))

instance decidableActionFits (cluster : ClusterState) :
    (action : Action) → Decidable (cluster.ActionFits action)
  | .assign partitionId nodeId isPrimary => decidableAssignFits cluster partitionId nodeId isPrimary
  | .rebalance => decidableRebalanceFits cluster
  | .markDead _ => isTrue trivial
  | .leave left => decidableLeaveFits cluster left

/-! ## One change to both sides -/

/-- What every call keeps: the ids of the nodes stay distinct, and ownership consistent. -/
structure Sound (cluster : ClusterState) : Prop where
  ids : (cluster.nodes.map ClusterNode.nodeId).Nodup
  consistent : cluster.Consistent

/-- The owners of one partition change, and with them the lists of the live nodes. -/
theorem Sound.of_change {cluster : ClusterState} (hsound : cluster.Sound)
    {partitionId : PartitionId} {p : PartitionInfo}
    (hget : cluster.partitions[partitionId.toNat]? = some p)
    {f : PartitionInfo → PartitionInfo} (hrole : (f p).primaryNode ∉ (f p).replicaNodes)
    {g : ClusterNode → ClusterNode} (hid : ∀ node, (g node).nodeId = node.nodeId)
    (hlive : ∀ node, (g node).Live → node.Live)
    (hnodup : ∀ node ∈ cluster.nodes, node.Live → (g node).partitions.Nodup)
    (hmem : ∀ node ∈ cluster.nodes, node.Live → ∀ q, q ∈ (g node).partitions ↔
      if q = partitionId then (f p).OwnedBy node.nodeId else q ∈ node.partitions) :
    { cluster with
      partitions := cluster.partitions.modify partitionId.toNat f
      nodes := cluster.nodes.map g }.Sound := by
  constructor
  · have hids : (cluster.nodes.map g).map ClusterNode.nodeId =
        cluster.nodes.map ClusterNode.nodeId := by
      rw [List.map_map]
      exact List.map_congr_left fun node _ => hid node
    exact hids ▸ hsound.ids
  · constructor
    · intro node hnode hnodeLive q
      obtain ⟨node, hold, rfl⟩ := List.mem_map.mp hnode
      rw [hmem node hold (hlive node hnodeLive) q, hid]
      unfold Owned
      dsimp only
      by_cases hq : q = partitionId
      · subst hq
        simp [hget]
      · have hne : partitionId.toNat ≠ q.toNat := fun heq => hq (UInt32.toNat_inj.mp heq.symm)
        rw [if_neg hq, List.getElem?_modify_ne _ _ hne]
        exact hsound.consistent.listed node hold (hlive node hnodeLive) q
    · intro node hnode hnodeLive
      obtain ⟨node, hold, rfl⟩ := List.mem_map.mp hnode
      exact hnodup node hold (hlive node hnodeLive)
    · intro p' hp'
      obtain ⟨i, hi⟩ := List.mem_iff_getElem?.mp hp'
      dsimp only at hi
      rw [List.getElem?_modify] at hi
      split_ifs at hi with heq
      · subst heq
        rw [hget] at hi
        cases hi
        exact hrole
      · have hi' : cluster.partitions[i]? = some p' := by simpa using hi
        exact hsound.consistent.oneRole p' (List.mem_of_getElem? hi')

theorem owned_iff {cluster : ClusterState} {partitionId : PartitionId} {p : PartitionInfo}
    (hget : cluster.partitions[partitionId.toNat]? = some p) (nodeId : NodeId) :
    cluster.Owned partitionId nodeId ↔ p.OwnedBy nodeId := by
  simp [Owned, hget]

/-- A live node that gets a partition had no role in it, and the others keep theirs. -/
theorem AssignFits.owners {cluster : ClusterState} {partitionId : PartitionId} {nodeId : NodeId}
    {isPrimary : Bool} (hfits : cluster.AssignFits partitionId nodeId isPrimary)
    {p : PartitionInfo} (hget : cluster.partitions[partitionId.toNat]? = some p)
    {node : ClusterNode} (hnode : node ∈ cluster.nodes) (hlive : node.Live) :
    (node.nodeId = nodeId → ¬ p.OwnedBy node.nodeId) ∧
      ((p.assign nodeId isPrimary cluster.replicationFactor).OwnedBy node.nodeId ↔
        node.nodeId = nodeId ∨ p.OwnedBy node.nodeId) := by
  have habsent : ∀ {id}, cluster.Absent id → node.nodeId ≠ id := fun h hid => h node hnode hid hlive
  have hfits := hfits p hget
  unfold PartitionInfo.assign PartitionInfo.OwnedBy
  cases isPrimary with
  | true =>
      obtain ⟨hreplica, hold⟩ : nodeId ∉ p.replicaNodes ∧ cluster.Absent p.primaryNode := hfits
      have hne := habsent hold
      refine ⟨?_, by simp [hne]⟩
      rintro rfl (heq | hmem)
      · exact hne heq
      · exact hreplica hmem
  | false =>
      rw [if_neg Bool.false_ne_true] at hfits ⊢
      split_ifs at hfits ⊢ with hroom
      · obtain ⟨hprimary, hlisted⟩ := hfits
        refine ⟨?_, by simp [or_comm, or_left_comm]⟩
        rintro rfl (heq | hmem)
        · exact hprimary heq
        · exact habsent (hlisted hmem) rfl
      · have hne := habsent hfits
        exact ⟨fun heq => absurd heq hne, by simp [hne]⟩

theorem AssignFits.oneRole {cluster : ClusterState} {partitionId : PartitionId} {nodeId : NodeId}
    {isPrimary : Bool} (hfits : cluster.AssignFits partitionId nodeId isPrimary)
    {p : PartitionInfo} (hget : cluster.partitions[partitionId.toNat]? = some p)
    (hrole : p.primaryNode ∉ p.replicaNodes) :
    (p.assign nodeId isPrimary cluster.replicationFactor).primaryNode ∉
      (p.assign nodeId isPrimary cluster.replicationFactor).replicaNodes := by
  have hfits := hfits p hget
  unfold PartitionInfo.assign
  cases isPrimary with
  | true => exact hfits.1
  | false =>
      rw [if_neg Bool.false_ne_true] at hfits ⊢
      split_ifs at hfits ⊢ with hroom
      · simpa [hrole] using hfits.1.symm
      · exact hrole

theorem mem_addPartition {partitionId q : PartitionId} {node : ClusterNode} :
    q ∈ (node.addPartition partitionId).partitions ↔ q = partitionId ∨ q ∈ node.partitions := by
  simp [ClusterNode.addPartition, or_comm]

theorem nodup_addPartition {partitionId : PartitionId} {node : ClusterNode}
    (hnodup : node.partitions.Nodup) (hnew : partitionId ∉ node.partitions) :
    (node.addPartition partitionId).partitions.Nodup := by
  have hconcat := List.Nodup.concat hnew hnodup
  rwa [List.concat_eq_append] at hconcat

theorem Sound.partitionAssign {cluster : ClusterState} (hsound : cluster.Sound)
    {partitionId : PartitionId} {nodeId : NodeId} {isPrimary : Bool}
    (hfits : cluster.AssignFits partitionId nodeId isPrimary) :
    (cluster.partitionAssign partitionId nodeId isPrimary).Sound := by
  unfold ClusterState.partitionAssign
  split_ifs with hrange
  · have hget := List.getElem?_eq_getElem hrange
    have hlisted := fun node hnode hlive =>
      (hsound.consistent.listed node hnode hlive partitionId).trans (owned_iff hget node.nodeId)
    rw [modify_findIdx_eq_map hsound.ids]
    refine hsound.of_change hget
      (hfits.oneRole hget (hsound.consistent.oneRole _ (List.getElem_mem hrange)))
      (fun node => ?_) (fun node hlive => ?_) (fun node hnode hlive => ?_)
      (fun node hnode hlive q => ?_)
    · split_ifs <;> rfl
    · split_ifs at hlive <;> exact hlive
    · split_ifs with hid
      · refine nodup_addPartition (hsound.consistent.nodup node hnode hlive) ?_
        rw [hlisted node hnode hlive]
        exact (hfits.owners hget hnode hlive).1 hid
      · exact hsound.consistent.nodup node hnode hlive
    · rw [(hfits.owners hget hnode hlive).2, ← hlisted node hnode hlive]
      split_ifs with hid hq hq
      · simp [mem_addPartition, hq, hid]
      · simp [mem_addPartition, hq]
      · simp [hq, hid]
      · exact Iff.rfl
  · exact hsound

/-! ## Rebalancing -/

theorem nextMove_eq_some {cluster : ClusterState} {targetPerNode source : Nat}
    {move : PartitionId × ClusterNode} {node : ClusterNode}
    (hsource : cluster.nodes[source]? = some node)
    (hnext : cluster.nextMove targetPerNode source = some move) :
    node.partitions.getLast? = some move.1 ∧ move.2 ∈ cluster.nodes ∧
      move.2.partitions.length < targetPerNode := by
  unfold nextMove at hnext
  rw [hsource] at hnext
  obtain ⟨_, hsame, hnext⟩ := Option.bind_eq_some_iff.mp hnext
  cases hsame
  obtain ⟨partitionId, hlast, hnext⟩ := Option.bind_eq_some_iff.mp hnext
  obtain ⟨target, hfind, hnext⟩ := Option.bind_eq_some_iff.mp hnext
  cases hnext
  have htarget := List.find?_some hfind
  rw [Bool.and_eq_true, decide_eq_true_eq, decide_eq_true_eq] at htarget
  exact ⟨hlast, List.mem_of_find?_eq_some hfind, htarget.2⟩

theorem mem_dropPartition {node : ClusterNode} {partitionId q : PartitionId}
    (hnodup : node.partitions.Nodup) (hlast : node.partitions.getLast? = some partitionId) :
    q ∈ node.dropPartition.partitions ↔ q ≠ partitionId ∧ q ∈ node.partitions := by
  obtain ⟨rest, hrest⟩ := List.getLast?_eq_some_iff.mp hlast
  rw [hrest, List.nodup_append] at hnodup
  have hnew : ∀ q ∈ rest, q ≠ partitionId := fun q hq => hnodup.2.2 q hq _ (by simp)
  unfold ClusterNode.dropPartition
  rw [hrest, List.dropLast_concat]
  constructor
  · exact fun hq => ⟨hnew q hq, List.mem_append_left _ hq⟩
  · rintro ⟨hne, hq⟩
    simpa [hne] using hq

/-- What a move does to a node. -/
def moved (source target : NodeId) (partitionId : PartitionId) (node : ClusterNode) :
    ClusterNode :=
  if node.nodeId = source then node.dropPartition
  else if node.nodeId = target then node.addPartition partitionId
  else node

theorem nodeId_moved (source target : NodeId) (partitionId : PartitionId) (node : ClusterNode) :
    (moved source target partitionId node).nodeId = node.nodeId := by
  unfold moved
  split_ifs <;> rfl

theorem status_moved (source target : NodeId) (partitionId : PartitionId) (node : ClusterNode) :
    (moved source target partitionId node).status = node.status := by
  unfold moved
  split_ifs <;> rfl

/-- Both lists are changed by the ids of the two nodes. -/
theorem partitionAssign_dropPartition {cluster : ClusterState}
    (hids : (cluster.nodes.map ClusterNode.nodeId).Nodup) {source : Nat}
    {node target : ClusterNode} (hsource : cluster.nodes[source]? = some node)
    (hne : target.nodeId ≠ node.nodeId) {partitionId : PartitionId}
    (hrange : partitionId.toNat < cluster.partitions.length) :
    (cluster.dropPartition source).partitionAssign partitionId target.nodeId true =
      { cluster with
        partitions := cluster.partitions.modify partitionId.toNat
          (PartitionInfo.assign target.nodeId true cluster.replicationFactor)
        nodes := cluster.nodes.map (moved node.nodeId target.nodeId partitionId) } := by
  have hdrop : (cluster.dropPartition source).nodes = cluster.nodes.map fun other =>
      if other.nodeId = node.nodeId then other.dropPartition else other :=
    modify_eq_map hids hsource _
  have hids' : ((cluster.dropPartition source).nodes.map ClusterNode.nodeId).Nodup := by
    have heq : (cluster.dropPartition source).nodes.map ClusterNode.nodeId =
        cluster.nodes.map ClusterNode.nodeId := by
      rw [hdrop, List.map_map]
      refine List.map_congr_left fun other _ => ?_
      dsimp only [Function.comp_apply]
      split_ifs <;> rfl
    exact heq ▸ hids
  unfold ClusterState.partitionAssign
  rw [if_pos (show _ < (cluster.dropPartition source).partitions.length from hrange),
    modify_findIdx_eq_map hids', hdrop, List.map_map]
  have hmoved : cluster.nodes.map ((fun other => if other.nodeId = target.nodeId then
        other.addPartition partitionId else other) ∘
      fun other => if other.nodeId = node.nodeId then other.dropPartition else other) =
      cluster.nodes.map (moved node.nodeId target.nodeId partitionId) := by
    refine List.map_congr_left fun other _ => ?_
    dsimp only [Function.comp_apply]
    unfold moved
    by_cases hid : other.nodeId = node.nodeId
    · have hother : other.dropPartition.nodeId ≠ target.nodeId := fun heq =>
        hne (heq.symm.trans hid)
      rw [if_pos hid, if_pos hid, if_neg hother]
    · rw [if_neg hid, if_neg hid]
  rw [hmoved]
  rfl

/-- The source of a move stays where it is, and as live as it was. -/
def SourceLive (source : Nat) (cluster : ClusterState) : Prop :=
  ∃ node, cluster.nodes[source]? = some node ∧ node.Live

theorem Sound.movePartition {cluster after : ClusterState} (hsound : cluster.Sound)
    {targetPerNode source : Nat} (hlive : cluster.SourceLive source)
    (hmore : cluster.overloaded targetPerNode source)
    (hfits : MoveFits targetPerNode source cluster)
    (hmove : cluster.movePartition targetPerNode source = some after) :
    after.Sound ∧ after.SourceLive source := by
  obtain ⟨node, hsource, hlive⟩ := hlive
  obtain ⟨⟨partitionId, target⟩, hnext, hafter⟩ := Option.map_eq_some_iff.mp hmove
  obtain ⟨hlast, htarget, hunder⟩ := nextMove_eq_some hsource hnext
  dsimp only at hafter hlast htarget hunder
  have hnode := List.mem_of_getElem? hsource
  have hsame : ∀ other ∈ cluster.nodes, other.nodeId = node.nodeId → other = node :=
    fun other hother hid => List.inj_on_of_nodup_map hsound.ids hother hnode hid
  -- the source is overloaded and the target is not
  have hover : node.partitions.length > targetPerNode + 1 := by
    unfold overloaded at hmore
    rw [hsource] at hmore
    exact of_decide_eq_true hmore
  have hne : target.nodeId ≠ node.nodeId := by
    intro hid
    rw [hsame target htarget hid] at hunder
    omega
  obtain ⟨p, hget, hrole⟩ := (hsound.consistent.listed node hnode hlive partitionId).mp
    (List.mem_of_getLast? hlast)
  have hget : cluster.partitions[partitionId.toNat]? = some p := hget
  obtain ⟨hprimary, hreplica⟩ := hfits node hsource _ hnext p hget
  have holdRole := hsound.consistent.oneRole p (List.mem_of_getElem? hget)
  have hlisted := fun node hnode hlive =>
    (hsound.consistent.listed node hnode hlive partitionId).trans (owned_iff hget node.nodeId)
  rw [partitionAssign_dropPartition hsound.ids hsource hne
    (List.getElem?_eq_some_iff.mp hget).1] at hafter
  subst hafter
  constructor
  · refine hsound.of_change hget hreplica (nodeId_moved _ _ _) (fun other hother => ?_)
      (fun other hother hotherLive => ?_) (fun other hother hotherLive q => ?_)
    · rwa [ClusterNode.Live, status_moved] at hother
    · have hnodup := hsound.consistent.nodup other hother hotherLive
      unfold moved
      split_ifs with hid hid'
      · exact hnodup.sublist (List.dropLast_sublist _)
      · refine nodup_addPartition hnodup ?_
        rw [hlisted other hother hotherLive, hid']
        rintro (heq | hmem)
        · exact hne (heq.trans hprimary)
        · exact hreplica hmem
      · exact hnodup
    · have hnew : (p.assign target.nodeId true cluster.replicationFactor).OwnedBy other.nodeId ↔
          other.nodeId = target.nodeId ∨ other.nodeId ∈ p.replicaNodes := Iff.rfl
      have hold := hlisted other hother hotherLive
      rw [hnew]
      unfold moved
      split_ifs with hid hq hid' hq hq
      · -- the primary loses the partition
        have hnone : ¬ (other.nodeId = target.nodeId ∨ other.nodeId ∈ p.replicaNodes) := by
          rw [hid, ← hprimary]
          rintro (heq | hmem)
          · exact hne (heq.symm.trans hprimary)
          · exact holdRole hmem
        rw [hsame other hother hid, mem_dropPartition
          (hsound.consistent.nodup node hnode hlive) hlast]
        rw [hsame other hother hid] at hnone
        exact iff_of_false (fun h => h.1 hq) hnone
      · rw [hsame other hother hid, mem_dropPartition
          (hsound.consistent.nodup node hnode hlive) hlast]
        exact and_iff_right hq
      · exact iff_of_true (mem_addPartition.mpr (Or.inl hq)) (Or.inl hid')
      · rw [mem_addPartition]
        exact or_iff_right hq
      · rw [hq, hold]
        unfold PartitionInfo.OwnedBy
        rw [or_iff_right (hprimary ▸ hid), or_iff_right hid']
      · exact Iff.rfl
  · refine ⟨moved node.nodeId target.nodeId partitionId node, ?_, ?_⟩
    · rw [List.getElem?_map, hsource]
      rfl
    · rwa [ClusterNode.Live, status_moved]

theorem Sound.drain {cluster after : ClusterState} (hsound : cluster.Sound)
    {targetPerNode source : Nat} (hfits : DrainFits targetPerNode cluster source)
    (hdrain : drain targetPerNode cluster source = some after) : after.Sound := by
  unfold ClusterState.drain at hdrain
  split at hdrain
  · rename_i node hsource
    split_ifs at hdrain with hlive
    · refine (whileLoop_of_roundsFit (P := fun cluster => cluster.Sound ∧ cluster.SourceLive source)
        ?_ ⟨hsound, node, hsource, hlive⟩ (hfits node hsource hlive) hdrain).1
      rintro cluster next ⟨hsound, hlive⟩ hmore hfits hmove
      exact hsound.movePartition hlive hmore hfits hmove
    · cases hdrain
      exact hsound
  · cases hdrain
    exact hsound

theorem Sound.rebalancePartitions {cluster after : ClusterState} (hsound : cluster.Sound)
    (hfits : cluster.RebalanceFits) (hrebalance : cluster.rebalancePartitions = some after) :
    after.Sound := by
  unfold ClusterState.rebalancePartitions at hrebalance
  split_ifs at hrebalance with hidle
  · cases hrebalance
    exact hsound
  · rw [not_or, not_not] at hidle
    exact foldlM_of_stepsFit (fun _ _ _ hsound hfits hdrain => hsound.drain hfits hdrain) hsound
      (hfits hidle.1) hrebalance

/-! ## A node leaves -/

theorem Sound.promote {cluster after : ClusterState} (hsound : cluster.Sound)
    {partitionId : PartitionId} (hfits : cluster.PromoteFits partitionId)
    (hpromote : cluster.promote partitionId = some after) : after.Sound := by
  unfold ClusterState.promote at hpromote
  split_ifs at hpromote with hrange
  cases hpromote
  have hget := List.getElem?_eq_getElem hrange
  have hlisted := fun node hnode hlive =>
    (hsound.consistent.listed node hnode hlive partitionId).trans (owned_iff hget node.nodeId)
  have hrole := hsound.consistent.oneRole _ (List.mem_of_getElem? hget)
  have hfits := hfits _ hget
  have hkept : ∀ node ∈ cluster.nodes, node.Live →
      (cluster.partitions[partitionId.toNat].promoteReplica.OwnedBy node.nodeId ↔
        cluster.partitions[partitionId.toNat].OwnedBy node.nodeId) := by
    intro node hnode hlive
    unfold PartitionInfo.promoteReplica PartitionInfo.OwnedBy
    split
    · exact Iff.rfl
    · rename_i replica rest hreplicas
      have hne : node.nodeId ≠ cluster.partitions[partitionId.toNat].primaryNode := fun heq =>
        (hfits replica (by simp [hreplicas])).1 node hnode heq hlive
      simp [hne, hreplicas]
  have hnewRole : cluster.partitions[partitionId.toNat].promoteReplica.primaryNode ∉
      cluster.partitions[partitionId.toNat].promoteReplica.replicaNodes := by
    unfold PartitionInfo.promoteReplica
    split
    · exact hrole
    · rename_i replica rest hreplicas
      have hnew := (hfits replica (by simp [hreplicas])).2
      rwa [hreplicas] at hnew
  have hchange := hsound.of_change hget hnewRole (fun _ => rfl) (fun _ => id)
    hsound.consistent.nodup (fun node hnode hlive q => by
      rw [hkept node hnode hlive, ← hlisted node hnode hlive]
      split_ifs with hq
      · rw [hq]
      · exact Iff.rfl)
  rwa [List.map_id'] at hchange

theorem Sound.rebalanceOnLeave {cluster after : ClusterState} (hsound : cluster.Sound)
    {left : Nat} (hfits : cluster.LeaveFits left)
    (hleave : cluster.rebalanceOnLeave left = some after) : after.Sound := by
  unfold ClusterState.rebalanceOnLeave at hleave
  split_ifs at hleave with hrole
  · cases hleave
    exact hsound
  · obtain ⟨leftNode, hleft, hleave⟩ := Option.bind_eq_some_iff.mp hleave
    obtain ⟨promoted, hpromoted, hleave⟩ := Option.bind_eq_some_iff.mp hleave
    obtain ⟨hpromotions, hrebalance⟩ := hfits (not_not.mp hrole) leftNode hleft
    have hsound' : promoted.Sound :=
      foldlM_of_stepsFit (fun _ _ _ hsound hfits hpromote => hsound.promote hfits hpromote) hsound
        hpromotions hpromoted
    exact hsound'.rebalancePartitions (hrebalance promoted hpromoted) hleave

theorem Sound.markDead {cluster : ClusterState} (hsound : cluster.Sound) (i : Nat) :
    (cluster.markDead i).Sound := by
  have hlive : ∀ node ∈ (cluster.markDead i).nodes, node.Live → node ∈ cluster.nodes := by
    intro node hnode hlive
    obtain ⟨j, hj⟩ := List.mem_iff_getElem?.mp hnode
    unfold ClusterState.markDead at hj
    rw [List.getElem?_modify] at hj
    obtain ⟨old, hold, hj⟩ := Option.map_eq_some_iff.mp hj
    split_ifs at hj
    · rw [← hj] at hlive
      exact absurd rfl hlive
    · exact hj ▸ List.mem_of_getElem? hold
  constructor
  · have hids : (cluster.markDead i).nodes.map ClusterNode.nodeId =
        cluster.nodes.map ClusterNode.nodeId := by
      refine List.ext_getElem? fun j => ?_
      unfold ClusterState.markDead
      rw [List.getElem?_map, List.getElem?_map, List.getElem?_modify]
      cases cluster.nodes[j]? with
      | none => rfl
      | some node =>
          rw [Option.map_eq_map, Option.map_some, Option.map_some]
          split_ifs <;> rfl
    exact hids ▸ hsound.ids
  · constructor
    · exact fun node hnode hnodeLive =>
        hsound.consistent.listed node (hlive node hnode hnodeLive) hnodeLive
    · exact fun node hnode hnodeLive =>
        hsound.consistent.nodup node (hlive node hnode hnodeLive) hnodeLive
    · exact hsound.consistent.oneRole

/-! ## Ownership over whole runs -/

theorem Sound.act {cluster after : ClusterState} {action : Action} (hsound : cluster.Sound)
    (hfits : cluster.ActionFits action) (hact : cluster.act action = some after) :
    after.Sound := by
  cases action with
  | assign partitionId nodeId isPrimary =>
      cases hact
      exact hsound.partitionAssign hfits
  | rebalance => exact hsound.rebalancePartitions hfits hact
  | markDead node =>
      cases hact
      exact hsound.markDead node
  | leave left => exact hsound.rebalanceOnLeave hfits hact

/-- Partitions without a primary name the node 0. -/
theorem sound_partitionInit {cluster : ClusterState} {numPartitions : Nat}
    (hids : (cluster.nodes.map ClusterNode.nodeId).Nodup)
    (hnew : ∀ node ∈ cluster.nodes, node.partitions = [])
    (hzero : numPartitions ≠ 0 → cluster.Absent 0) :
    (cluster.partitionInit numPartitions).Sound where
  ids := hids
  consistent :=
    { listed := by
        intro node hnode hlive partitionId
        rw [hnew node hnode]
        refine iff_of_false List.not_mem_nil ?_
        rintro ⟨p, hget, howned⟩
        have hmem := List.mem_of_getElem? hget
        obtain ⟨hcount, rfl⟩ := List.mem_replicate.mp hmem
        have hid : node.nodeId = 0 := by simpa [PartitionInfo.OwnedBy] using howned
        exact hzero hcount node hnode hid hlive
      nodup := by
        intro node hnode _
        rw [hnew node hnode]
        exact List.nodup_nil
      oneRole := by
        intro p hp
        obtain ⟨_, rfl⟩ := List.mem_replicate.mp hp
        exact List.not_mem_nil }

theorem Sound.stays {cluster : ClusterState} {actions : List Action} (hsound : cluster.Sound)
    (hfits : StepsFit ClusterState.act ActionFits cluster actions) :
    Stays ClusterState.act Consistent cluster actions :=
  (stays_of_stepsFit (fun _ _ _ hsound hfits hact => hsound.act hfits hact) hsound hfits).mono
    fun _ hsound => hsound.consistent

/-- From `partition_init` on, ownership stays consistent in every run whose calls fit, if the ids
of the nodes are distinct and no live node has the id 0. -/
theorem ownership_stays_consistent {cluster : ClusterState} {numPartitions : Nat}
    {actions : List Action} (hids : (cluster.nodes.map ClusterNode.nodeId).Nodup)
    (hnew : ∀ node ∈ cluster.nodes, node.partitions = [])
    (hzero : numPartitions ≠ 0 → cluster.Absent 0)
    (hfits : StepsFit act ActionFits (cluster.partitionInit numPartitions) actions) :
    Stays act Consistent (cluster.partitionInit numPartitions) actions :=
  (sound_partitionInit hids hnew hzero).stays hfits

/-- A leader and a follower that hold nothing yet. -/
def twoNodes : ClusterState where
  nodes := [⟨1, .healthy, []⟩, ⟨2, .healthy, []⟩]
  partitions := []
  replicationFactor := 2
  currentRole := .leader

/-- Node 1 holds four partitions, and rebalancing gives one of them to node 2. -/
def movingActions : List Action :=
  [.assign 0 1 true, .assign 1 1 true, .assign 2 1 true, .assign 3 1 true, .assign 0 2 false,
    .rebalance]

theorem ownership_stays_consistent_movingActions :
    movingActions.foldlM act (twoNodes.partitionInit 4) = some
        { nodes := [⟨1, .healthy, [0, 1, 2]⟩, ⟨2, .healthy, [0, 3]⟩]
          partitions := [⟨1, [2]⟩, ⟨1, []⟩, ⟨1, []⟩, ⟨2, []⟩]
          replicationFactor := 2
          currentRole := .leader } ∧
      Stays act Consistent (twoNodes.partitionInit 4) movingActions := by
  exact ⟨by decide,
    ownership_stays_consistent (by decide) (by decide) (by decide) (by decide)⟩

/-- The node that loses the partition to another primary keeps it in its list. -/
theorem reassigned_partition_stays_listed :
    ∃ after, [Action.assign 0 1 true, .assign 0 2 true].foldlM act (twoNodes.partitionInit 1) =
        some after ∧
      after.nodes = [⟨1, .healthy, [0]⟩, ⟨2, .healthy, [0]⟩] ∧
      after.partitions = [⟨2, []⟩] ∧
      ¬ Stays act Consistent (twoNodes.partitionInit 1)
        [.assign 0 1 true, .assign 0 2 true] := by
  refine ⟨_, rfl, by decide, by decide, fun hstays => ?_⟩
  have hlisted := (hstays.foldlM rfl).listed ⟨1, .healthy, [0]⟩ (by decide) (by decide) 0
  obtain ⟨p, hget, howned⟩ := hlisted.mp (by decide)
  have hp : p = ⟨2, []⟩ := by
    have hget' : some p = some ⟨2, []⟩ := hget.symm.trans (by decide)
    exact Option.some.inj hget'
  subst hp
  exact absurd howned (by simp [PartitionInfo.OwnedBy])

end ClusterState

end Cluster
end InventixDB
