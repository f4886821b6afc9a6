import InventixDB.Cluster.Ownership
import Mathlib.Algebra.GroupWithZero.Nat

/-!
# Rebalancing — when the loop over overloaded nodes ends

A node with too many partitions gives one after the other to a live node that is below the target.
What it has too much must find a place below the target: a node that has reached it takes nothing
more, although the bound allows it one partition above.  `partition_assign` looks for the node by
its id, and where an earlier node has the same one the partition ends up there.
-/

namespace InventixDB
namespace Cluster

open Lib

/-! ## Supply and demand -/

/-- Every item finds a place, and those that are kept use it up. -/
def Finds {α : Type*} (kept : α → Bool) : List α → Nat → Prop
  | [], _ => True
  | a :: rest, places => 0 < places ∧ Finds kept rest (if kept a then places - 1 else places)

namespace ClusterState

variable {cluster after : ClusterState} {targetPerNode source k : Nat}
  {node target : ClusterNode} {partitionId : PartitionId}

/-- What a node is below the target. -/
def room (targetPerNode : Nat) (node : ClusterNode) : Nat :=
  if node.Live then targetPerNode - node.partitions.length else 0

/-- The node is below the target, and an earlier one has its id. -/
def Shadowed (targetPerNode : Nat) (cluster : ClusterState) (j : Nat) : Bool :=
  cluster.nodes[j]?.any fun node => decide (0 < room targetPerNode node) &&
    decide ((cluster.nodes.findIdx fun other => other.nodeId = node.nodeId) ≠ j)

/-- The partition is one of the cluster's. -/
def Known (cluster : ClusterState) (partitionId : PartitionId) : Bool :=
  decide (partitionId.toNat < cluster.partitions.length)

/-- A node that is not the source of moves: it is as it was, or it got partitions up to the
target. -/
structure Kept (targetPerNode : Nat) (before after : ClusterNode) : Prop where
  nodeId : after.nodeId = before.nodeId
  status : after.status = before.status
  partitions : after.partitions = before.partitions ∨
    before.partitions.length < targetPerNode ∧ after.partitions.length ≤ targetPerNode

theorem Kept.refl (node : ClusterNode) : Kept targetPerNode node node :=
  ⟨rfl, rfl, .inl rfl⟩

theorem Kept.trans {a b c : ClusterNode} (hab : Kept targetPerNode a b)
    (hbc : Kept targetPerNode b c) : Kept targetPerNode a c := by
  refine ⟨hbc.nodeId.trans hab.nodeId, hbc.status.trans hab.status, ?_⟩
  rcases hab.partitions with hsame | ⟨hlow, hle⟩
  · rw [← hsame]
    exact hbc.partitions
  · refine .inr ⟨hlow, ?_⟩
    rcases hbc.partitions with hsame | ⟨_, hle'⟩
    · rw [hsame]
      exact hle
    · exact hle'

/-- The node that gets a partition, if it is one of the cluster's. -/
def received (cluster : ClusterState) (partitionId : PartitionId) (node : ClusterNode) :
    ClusterNode :=
  if cluster.Known partitionId then node.addPartition partitionId else node

/-- What moves leave as it was, but for the node they take the partitions from. -/
structure Moves (targetPerNode source : Nat) (cluster after : ClusterState) : Prop where
  others : ∀ j ≠ source, ∀ other, cluster.nodes[j]? = some other →
    ∃ other', after.nodes[j]? = some other' ∧ Kept targetPerNode other other'
  ids : after.nodes.map ClusterNode.nodeId = cluster.nodes.map ClusterNode.nodeId
  partitions : after.partitions.length = cluster.partitions.length
  clear : ∀ j, cluster.Shadowed targetPerNode j = false → after.Shadowed targetPerNode j = false

theorem Moves.refl (cluster : ClusterState) : Moves targetPerNode source cluster cluster :=
  ⟨fun _ _ other hother => ⟨other, hother, Kept.refl other⟩, rfl, rfl, fun _ => id⟩

theorem Moves.trans {a b c : ClusterState} (hab : Moves targetPerNode source a b)
    (hbc : Moves targetPerNode source b c) : Moves targetPerNode source a c := by
  refine ⟨fun j hj other hother => ?_, hbc.ids.trans hab.ids, hbc.partitions.trans hab.partitions,
    fun j hj => hbc.clear j (hab.clear j hj)⟩
  obtain ⟨other', hother', hkept⟩ := hab.others j hj other hother
  obtain ⟨other'', hother'', hkept'⟩ := hbc.others j hj other' hother'
  exact ⟨other'', hother'', hkept.trans hkept'⟩

theorem Moves.known (hmoves : Moves targetPerNode source cluster after) :
    after.Known = cluster.Known := by
  funext partitionId
  rw [Known, hmoves.partitions, Known]

theorem Moves.length (hmoves : Moves targetPerNode source cluster after) :
    after.nodes.length = cluster.nodes.length := by
  have hlen := congrArg List.length hmoves.ids
  rwa [List.length_map, List.length_map] at hlen

/-- The nodes up to `k` are no longer overloaded. -/
def Relieved (targetPerNode k : Nat) (cluster : ClusterState) : Prop :=
  ∀ j < k, ∀ node, cluster.nodes[j]? = some node → node.Live →
    node.partitions.length ≤ targetPerNode + 1

theorem Relieved.moves {k : Nat} (hrelieved : Relieved targetPerNode k cluster)
    (hmoves : Moves targetPerNode k cluster after) {node' : ClusterNode}
    (hafter : after.nodes[k]? = some node')
    (hle : node'.Live → node'.partitions.length ≤ targetPerNode + 1) :
    Relieved targetPerNode (k + 1) after := by
  intro j hj other' hother' hlive
  by_cases hjk : j = k
  · rw [hjk, hafter] at hother'
    cases hother'
    exact hle hlive
  · have hlen : j < cluster.nodes.length := by
      rw [← hmoves.length]
      exact (List.getElem?_eq_some_iff.mp hother').1
    have hother := List.getElem?_eq_getElem hlen
    obtain ⟨other'', hother'', hkept⟩ := hmoves.others j hjk _ hother
    cases hother'.symm.trans hother''
    rcases hkept.partitions with hsame | ⟨_, hle'⟩
    · rw [hsame]
      refine hrelieved j (by omega) _ hother ?_
      rw [ClusterNode.Live, ← hkept.status]
      exact hlive
    · omega

/-- A leader and two followers that hold nothing yet. -/
def threeNodes : ClusterState where
  nodes := [⟨1, .healthy, []⟩, ⟨2, .healthy, []⟩, ⟨3, .healthy, []⟩]
  partitions := []
  replicationFactor := 2
  currentRole := .leader

/-- There is a live node with the id. -/
def LiveId (cluster : ClusterState) (nodeId : NodeId) : Prop :=
  ∃ node ∈ cluster.nodes, node.nodeId = nodeId ∧ node.Live

/-- The loop of `rebalance_on_leave`. -/
def promoteAll (cluster : ClusterState) (leftNode : ClusterNode) : Option ClusterState :=
  leftNode.partitions.foldlM promote cluster

/-- What a partition should become when a node leaves. -/
structure Succeeds (cluster : ClusterState) (left : NodeId) (p after : PartitionInfo) : Prop where
  kept : p.primaryNode ≠ left → after.primaryNode = p.primaryNode
  promoted : p.primaryNode = left → (∃ replica ∈ p.replicaNodes, cluster.LiveId replica) →
    after.primaryNode ∈ p.replicaNodes ∧ cluster.LiveId after.primaryNode
  dropped : left ∉ after.replicaNodes

/-- All partitions become what they should. -/
def FailsOver (cluster : ClusterState) (leftNode : ClusterNode) : Prop :=
  ∃ after, cluster.promoteAll leftNode = some after ∧
    ∀ partitionId : PartitionId, ∀ p ∈ cluster.partitions[partitionId.toNat]?,
      ∃ p' ∈ after.partitions[partitionId.toNat]?, cluster.Succeeds leftNode.nodeId p p'

/-- The node is a replica of no partition, and of those it leads the first replica is alive, or
none is. -/
def FailoverFits (cluster : ClusterState) (left : NodeId) : Prop :=
  ∀ partitionId : PartitionId, ∀ p ∈ cluster.partitions[partitionId.toNat]?,
    left ∉ p.replicaNodes ∧
      (p.primaryNode = left → ∀ first ∈ p.replicaNodes.head?,
        cluster.LiveId first ∨ ∀ replica ∈ p.replicaNodes, ¬ cluster.LiveId replica)

theorem promoteAll_eq (cluster : ClusterState) {partitionIds : List PartitionId}
    (hnodup : partitionIds.Nodup)
    (hknown : ∀ partitionId ∈ partitionIds, partitionId.toNat < cluster.partitions.length) :
    ∃ after, partitionIds.foldlM promote cluster = some after ∧
      ∀ partitionId : PartitionId, after.partitions[partitionId.toNat]? =
        cluster.partitions[partitionId.toNat]?.map fun p =>
          if partitionId ∈ partitionIds then p.promoteReplica else p := by
  induction partitionIds generalizing cluster with
  | nil => exact ⟨cluster, rfl, fun partitionId => by simp⟩
  | cons first rest ih =>
      have hfirst := hknown first List.mem_cons_self
      obtain ⟨hnew, hrest⟩ := List.nodup_cons.mp hnodup
      have hpromote : cluster.promote first = some { cluster with
          partitions := cluster.partitions.modify first.toNat PartitionInfo.promoteReplica } := by
        rw [promote, if_pos hfirst]
      obtain ⟨after, hafter, hpartitions⟩ := ih { cluster with
          partitions := cluster.partitions.modify first.toNat PartitionInfo.promoteReplica } hrest
        fun partitionId hmem => by
          rw [List.length_modify]
          exact hknown partitionId (List.mem_cons_of_mem _ hmem)
      refine ⟨after, by rw [List.foldlM_cons, hpromote]; exact hafter, fun partitionId => ?_⟩
      rw [hpartitions]
      by_cases hsame : partitionId = first
      · rw [hsame, List.getElem?_modify_eq]
        simp [hnew, Function.comp_def]
      · have hne : first.toNat ≠ partitionId.toNat :=
          fun heq => hsame (UInt32.toNat_inj.mp heq.symm)
        rw [List.getElem?_modify_ne _ _ hne]
        simp [hsame]

/-- A partition the leaving node has no part in. -/
theorem succeeds_self {p : PartitionInfo} {left : NodeId} (hprimary : p.primaryNode ≠ left)
    (hreplica : left ∉ p.replicaNodes) : cluster.Succeeds left p p :=
  ⟨fun _ => rfl, fun heq => absurd heq hprimary, hreplica⟩

/-- A partition the leaving node has a part in. -/
theorem succeeds_promoteReplica_iff {p : PartitionInfo} {left : NodeId}
    (howned : p.OwnedBy left) (hrole : p.primaryNode ∉ p.replicaNodes) :
    cluster.Succeeds left p p.promoteReplica ↔
      left ∉ p.replicaNodes ∧
        (p.primaryNode = left → ∀ first ∈ p.replicaNodes.head?,
          cluster.LiveId first ∨ ∀ replica ∈ p.replicaNodes, ¬ cluster.LiveId replica) := by
  by_cases hprimary : p.primaryNode = left
  · have hreplica : left ∉ p.replicaNodes := hprimary ▸ hrole
    rw [and_iff_right hreplica]
    unfold PartitionInfo.promoteReplica
    cases hreplicas : p.replicaNodes with
    | nil =>
        refine iff_of_true ⟨fun hne => absurd hprimary hne, ?_, ?_⟩
          fun _ first hfirst => nomatch hfirst
        · rintro _ ⟨replica, hmem, _⟩
          rw [hreplicas] at hmem
          cases hmem
        · rw [hreplicas]
          exact List.not_mem_nil
    | cons first rest =>
        dsimp only
        constructor
        · rintro hsucceeds _ first' hfirst
          cases hfirst
          by_cases hlive : ∃ replica ∈ p.replicaNodes, cluster.LiveId replica
          · exact .inl (hsucceeds.promoted hprimary hlive).2
          · rw [← hreplicas]
            exact .inr fun replica hmem halive => hlive ⟨replica, hmem, halive⟩
        · intro hfits
          refine ⟨fun hne => absurd hprimary hne, fun _ ⟨replica, hmem, halive⟩ => ?_,
            fun hmem => ?_⟩
          · rcases hfits hprimary first rfl with hlive | hnone
            · rw [hreplicas]
              exact ⟨List.mem_cons_self, hlive⟩
            · rw [hreplicas] at hmem
              exact absurd halive (hnone replica hmem)
          · rw [hreplicas] at hreplica
            exact hreplica (List.mem_cons_of_mem _ hmem)
  · -- a replica leaves, and the first one becomes primary all the same
    have hreplica : left ∈ p.replicaNodes := howned.resolve_left fun heq => hprimary heq.symm
    refine iff_of_false (fun hsucceeds => ?_) fun hfits => hfits.1 hreplica
    have hkept := hsucceeds.kept hprimary
    unfold PartitionInfo.promoteReplica at hkept
    cases hreplicas : p.replicaNodes with
    | nil =>
        rw [hreplicas] at hreplica
        cases hreplica
    | cons first rest =>
        rw [hreplicas] at hkept
        refine hrole ?_
        rw [← hkept, hreplicas]
        exact List.mem_cons_self

theorem partitions_markDead (cluster : ClusterState) (left : Nat) :
    (cluster.markDead left).partitions = cluster.partitions := rfl

/-- When a node of a consistent cluster is found dead, the partitions succeed in just these
states. -/
theorem failsOver_iff {leftNode : ClusterNode} {left : Nat} (hsound : cluster.Sound)
    (hleft : cluster.nodes[left]? = some leftNode) (hlive : leftNode.Live) :
    (cluster.markDead left).FailsOver leftNode ↔
      (cluster.markDead left).FailoverFits leftNode.nodeId := by
  have hnode := List.mem_of_getElem? hleft
  have hlisted : ∀ partitionId : PartitionId, ∀ p, cluster.partitions[partitionId.toNat]? = some p →
      (partitionId ∈ leftNode.partitions ↔ p.OwnedBy leftNode.nodeId) :=
    fun partitionId p hp =>
      (hsound.consistent.listed leftNode hnode hlive partitionId).trans (owned_iff hp _)
  obtain ⟨after, hafter, hpartitions⟩ := promoteAll_eq (cluster.markDead left)
    (hsound.consistent.nodup leftNode hnode hlive) fun partitionId hmem => by
      obtain ⟨p, hp, _⟩ := (hsound.consistent.listed leftNode hnode hlive partitionId).mp hmem
      exact (List.getElem?_eq_some_iff.mp hp).1
  have hsucceeds : (cluster.markDead left).FailsOver leftNode ↔
      ∀ partitionId : PartitionId, ∀ p ∈ cluster.partitions[partitionId.toNat]?,
        (cluster.markDead left).Succeeds leftNode.nodeId p
          (if partitionId ∈ leftNode.partitions then p.promoteReplica else p) := by
    constructor
    · rintro ⟨after', hafter', hall⟩ partitionId p hp
      cases hafter.symm.trans hafter'
      obtain ⟨p', hp', hp''⟩ := hall partitionId p hp
      rw [hpartitions, partitions_markDead, hp] at hp'
      cases hp'
      exact hp''
    · intro hall
      refine ⟨after, hafter, fun partitionId p hp => ⟨_, ?_, hall partitionId p hp⟩⟩
      rw [hpartitions, hp]
      rfl
  rw [hsucceeds]
  refine forall_congr' fun partitionId => forall_congr' fun p => imp_congr_right fun hp => ?_
  have hp : cluster.partitions[partitionId.toNat]? = some p := hp
  have hrole := hsound.consistent.oneRole p (List.mem_of_getElem? hp)
  by_cases howned : p.OwnedBy leftNode.nodeId
  · rw [if_pos ((hlisted partitionId p hp).mpr howned)]
    exact succeeds_promoteReplica_iff howned hrole
  · rw [if_neg (mt (hlisted partitionId p hp).mp howned)]
    have hprimary : p.primaryNode ≠ leftNode.nodeId := fun heq => howned (.inl heq.symm)
    have hreplica : leftNode.nodeId ∉ p.replicaNodes := fun hmem => howned (.inr hmem)
    exact iff_of_true (succeeds_self hprimary hreplica) ⟨hreplica, fun heq => absurd heq hprimary⟩

/-- Node 1 leads a partition, and node 2 is its replica. -/
def pairedActions : List Action :=
  [.assign 0 1 true, .assign 0 2 false]

theorem sound_paired {cluster : ClusterState}
    (hrun : pairedActions.foldlM act (twoNodes.partitionInit 1) = some cluster) : cluster.Sound :=
  foldlM_of_stepsFit (fun _ _ _ hsound hfits hact => hsound.act hfits hact)
    (sound_partitionInit (by decide) (by decide) (by decide))
    (by decide : StepsFit act ActionFits (twoNodes.partitionInit 1) pairedActions) hrun

theorem failsOver_leader :
    ∃ cluster leftNode, pairedActions.foldlM act (twoNodes.partitionInit 1) = some cluster ∧
      cluster.nodes[0]? = some leftNode ∧ (cluster.markDead 0).FailsOver leftNode := by
  refine ⟨_, ⟨1, .healthy, [0]⟩, rfl, rfl,
    (failsOver_iff (sound_paired rfl) rfl (by decide)).mpr fun partitionId p hp => ?_⟩
  obtain rfl : p = ⟨1, [2]⟩ := List.mem_singleton.mp (List.mem_of_getElem? hp)
  refine ⟨by decide, fun _ first hfirst => .inl ⟨⟨2, .healthy, [0]⟩, by decide, ?_, by decide⟩⟩
  cases hfirst
  rfl

/-- The replica leaves, and is made the primary. -/
theorem leaving_replica_promoted :
    ∃ cluster leftNode after, pairedActions.foldlM act (twoNodes.partitionInit 1) = some cluster ∧
      cluster.nodes[1]? = some leftNode ∧ cluster.Sound ∧
      (cluster.markDead 1).promoteAll leftNode = some after ∧
      cluster.partitions = [⟨1, [2]⟩] ∧ after.partitions = [⟨2, []⟩] ∧
      ¬ (cluster.markDead 1).FailsOver leftNode := by
  refine ⟨_, ⟨2, .healthy, [0]⟩, _, rfl, rfl, sound_paired rfl, rfl, rfl, rfl, ?_⟩
  rintro ⟨after, hafter, hall⟩
  obtain ⟨p', hp', hsucceeds⟩ := hall 0 ⟨1, [2]⟩ rfl
  cases hafter
  cases hp'
  exact absurd (hsucceeds.kept (by decide)) (by decide)

end ClusterState
end Cluster
end InventixDB
