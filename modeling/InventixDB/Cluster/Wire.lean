import InventixDB.Cluster.Raft
import InventixDB.Lib.ByteCodec
import InventixDB.Storage.CStr

/-!
# Wire — messages between cluster nodes

A message is a header of 32 bytes and the payload it announces.  `cluster_send_message` fills in the
checksum of the payload; `replicate_data` and `cluster_forward_to_leader` send their bytes past it.
Structures travel as they lie in memory, with their padding.
-/

namespace InventixDB
namespace Cluster

open Lib.ByteCodec
open Storage

/-! ## Headers -/

structure ClusterMessageHeader where
  magic : UInt32
  version : UInt16
  type : UInt16
  senderId : NodeId
  receiverId : NodeId
  term : Term
  payloadLen : UInt32
  checksum : UInt32
  deriving DecidableEq

/-- `CLUSTER_MAGIC` and `CLUSTER_PROTOCOL_VERSION` -/
def clusterMagic : UInt32 := 0x494E5658
def protocolVersion : UInt16 := 1

/-- `MSG_VOTE_RESPONSE`, `MSG_QUERY_FORWARD`, `MSG_REPLICATE_DATA` -/
def msgVoteResponse : UInt16 := 4
def msgQueryForward : UInt16 := 10
def msgReplicateData : UInt16 := 12

def ClusterMessageHeader.bytes (header : ClusterMessageHeader) : List UInt8 :=
  leBytes 4 header.magic.toNat ++ leBytes 2 header.version.toNat ++ leBytes 2 header.type.toNat ++
    leBytes 4 header.senderId.toNat ++ leBytes 4 header.receiverId.toNat ++
    leBytes 8 header.term.toNat ++ leBytes 4 header.payloadLen.toNat ++
    leBytes 4 header.checksum.toNat

def readHeader (stream : List UInt8) : Option (ClusterMessageHeader × List UInt8) := do
  let (magic, stream) ← readLE 4 stream
  let (version, stream) ← readLE 2 stream
  let (type, stream) ← readLE 2 stream
  let (senderId, stream) ← readLE 4 stream
  let (receiverId, stream) ← readLE 4 stream
  let (term, stream) ← readLE 8 stream
  let (payloadLen, stream) ← readLE 4 stream
  let (checksum, stream) ← readLE 4 stream
  some
    ({ magic := UInt32.ofNat magic
       version := UInt16.ofNat version
       type := UInt16.ofNat type
       senderId := UInt32.ofNat senderId
       receiverId := UInt32.ofNat receiverId
       term := UInt64.ofNat term
       payloadLen := UInt32.ofNat payloadLen
       checksum := UInt32.ofNat checksum }, stream)

theorem readHeader_bytes (header : ClusterMessageHeader) (rest : List UInt8) :
    readHeader (header.bytes ++ rest) = some (header, rest) := by
  have h16 : ∀ n : UInt16, n.toNat < 256 ^ 2 := fun n => n.toNat_lt
  have h32 : ∀ n : UInt32, n.toNat < 256 ^ 4 := fun n => n.toNat_lt
  have h64 : ∀ n : UInt64, n.toNat < 256 ^ 8 := fun n => n.toNat_lt
  simp only [readHeader, ClusterMessageHeader.bytes, List.append_assoc, Option.bind_eq_bind,
    readLE_append (h32 _), readLE_append (h16 _), readLE_append (h64 _), Option.bind_some,
    UInt32.ofNat_toNat, UInt16.ofNat_toNat, UInt64.ofNat_toNat]

/-! ## Checksums -/

/-- One entry of the table of `init_crc32_table`. -/
def crc32Entry (i : UInt32) : UInt32 :=
  (List.range 8).foldl
    (fun crc _ => (crc >>> 1) ^^^ (if crc &&& 1 = 1 then 0xEDB88320 else 0)) i

/-- One byte of the loop of `cluster_crc32`. -/
def crc32Step (crc : UInt32) (byte : UInt8) : UInt32 :=
  (crc >>> 8) ^^^ crc32Entry ((crc ^^^ byte.toUInt32) &&& 0xFF)

/-- `cluster_crc32` -/
def clusterCrc32 (data : List UInt8) : UInt32 :=
  data.foldl crc32Step 0xFFFFFFFF ^^^ 0xFFFFFFFF

/-! ## Sending and receiving -/

def ClusterMessageHeader.withChecksum (header : ClusterMessageHeader) (checksum : UInt32) :
    ClusterMessageHeader :=
  { header with checksum := checksum }

/-- `cluster_send_message`: the bytes it sends, for a payload pointer at `payload`. -/
def clusterSendMessage (header : ClusterMessageHeader) (payload : List UInt8) : List UInt8 :=
  if 0 < header.payloadLen.toNat then
    let sent := payload.take header.payloadLen.toNat
    (header.withChecksum (clusterCrc32 sent)).bytes ++ sent
  else header.bytes

/-- `net_receive_message`: the header and the payload it accepts. -/
def netReceiveMessage (stream : List UInt8) : Option (ClusterMessageHeader × List UInt8) := do
  let (header, stream) ← readHeader stream
  if header.magic ≠ clusterMagic then none
  else if 0 < header.payloadLen.toNat then
    let (payload, _) ← readExact header.payloadLen.toNat stream
    if clusterCrc32 payload = header.checksum then some (header, payload) else none
  else some (header, [])

/-- A payload is accepted if its checksum is the one of the header. -/
theorem netReceiveMessage_payload {header : ClusterMessageHeader} {payload : List UInt8}
    (hmagic : header.magic = clusterMagic) (hpos : 0 < payload.length)
    (hlen : header.payloadLen.toNat = payload.length) :
    netReceiveMessage (header.bytes ++ payload) =
      if clusterCrc32 payload = header.checksum then some (header, payload) else none := by
  have hread := readExact_append payload []
  rw [List.append_nil] at hread
  unfold netReceiveMessage
  rw [readHeader_bytes, Option.bind_eq_bind, Option.bind_some]
  dsimp only
  rw [if_neg (not_not_intro hmagic), hlen, if_pos hpos, hread]
  rfl

/-- What `cluster_send_message` sends is accepted. -/
theorem netReceiveMessage_clusterSendMessage {header : ClusterMessageHeader}
    {payload : List UInt8} (hmagic : header.magic = clusterMagic)
    (hpos : 0 < header.payloadLen.toNat) (hlen : header.payloadLen.toNat ≤ payload.length) :
    netReceiveMessage (clusterSendMessage header payload) =
      some (header.withChecksum (clusterCrc32 (payload.take header.payloadLen.toNat)),
        payload.take header.payloadLen.toNat) := by
  have hsent : (payload.take header.payloadLen.toNat).length = header.payloadLen.toNat :=
    List.length_take_of_le hlen
  have hreceive := @netReceiveMessage_payload
    (header.withChecksum (clusterCrc32 (payload.take header.payloadLen.toNat)))
    (payload.take header.payloadLen.toNat) hmagic (by rw [hsent]; exact hpos) hsent.symm
  unfold clusterSendMessage
  rw [if_pos hpos]
  exact hreceive.trans (if_pos rfl)

/-- No payload has 2^32 bytes. -/
theorem length_netReceiveMessage {stream : List UInt8} {header : ClusterMessageHeader}
    {payload : List UInt8} (hreceive : netReceiveMessage stream = some (header, payload)) :
    payload.length < 2 ^ 32 := by
  obtain ⟨⟨header', stream'⟩, _, hreceive⟩ := Option.bind_eq_some_iff.mp hreceive
  dsimp only at hreceive
  split at hreceive
  · cases hreceive
  split at hreceive
  · obtain ⟨⟨payload', rest⟩, hexact, hreceive⟩ := Option.bind_eq_some_iff.mp hreceive
    dsimp only at hreceive
    split at hreceive
    · cases hreceive
      unfold readExact at hexact
      split at hexact
      · cases hexact
        rw [List.length_take]
        exact Nat.lt_of_le_of_lt (Nat.min_le_left _ _) (UInt32.toNat_lt _)
      · cases hexact
    · cases hreceive
  · cases hreceive
    simp

/-! ## Vote responses -/

/-- The header `raft_handle_vote_request` sets; its checksum is whatever the structure held. -/
def voteResponseHeader (selfNodeId : NodeId) (request : VoteRequest) (response : VoteResponse)
    (checksum : UInt32) : ClusterMessageHeader where
  magic := clusterMagic
  version := protocolVersion
  type := msgVoteResponse
  senderId := selfNodeId
  receiverId := request.senderId
  term := response.term
  payloadLen := 1
  checksum := checksum

/-- The bytes of a vote response that is sent; `padding` follows the flag in its structure. -/
def voteResponseBytes (node : RaftNode) (request : VoteRequest) (checksum : UInt32)
    (padding : List UInt8) : List UInt8 :=
  let response := (node.raftHandleVoteRequest request).1
  clusterSendMessage (voteResponseHeader node.selfNodeId request response checksum)
    ((if response.voteGranted then 1 else 0) :: padding)

/-- `raft_start_election` reads the flag where it lies in a structure with a header. -/
def readVoteGranted (payload : List UInt8) : Option Bool :=
  payload[32]?.map fun byte => byte ≠ 0

/-- The candidate reads back what the voter has answered. -/
def VoteSurvives (node : RaftNode) (request : VoteRequest) (checksum : UInt32)
    (padding : List UInt8) : Prop :=
  let response := (node.raftHandleVoteRequest request).1
  ∃ header payload,
    netReceiveMessage (voteResponseBytes node request checksum padding) = some (header, payload) ∧
      header.type = msgVoteResponse ∧ header.term = response.term ∧
        readVoteGranted payload = some response.voteGranted

/-- The payload is one byte, so the flag is looked for behind its end. -/
theorem not_voteSurvives (node : RaftNode) (request : VoteRequest) (checksum : UInt32)
    (padding : List UInt8) : ¬ VoteSurvives node request checksum padding := by
  rintro ⟨header, payload, hreceive, _, _, hread⟩
  have haccepted := @netReceiveMessage_clusterSendMessage
    (voteResponseHeader node.selfNodeId request (node.raftHandleVoteRequest request).1 checksum)
    ((if (node.raftHandleVoteRequest request).1.voteGranted then 1 else 0) :: padding) rfl
    Nat.one_pos (Nat.succ_le_succ (Nat.zero_le _))
  cases haccepted.symm.trans hreceive
  cases hread

/-! ## Messages sent without a checksum -/

section Raw

variable {header : ClusterMessageHeader} {fields data : List UInt8} {P : List UInt8 → Prop}

/-- Bytes that are sent past `cluster_send_message` are accepted only if their checksum is the zero
their header has. -/
theorem survives_raw_iff (hmagic : header.magic = clusterMagic) (hchecksum : header.checksum = 0)
    (hlen : header.payloadLen = UInt32.ofNat (fields.length + data.length))
    (hpos : 0 < fields.length)
    (hread : fields.length + data.length < 2 ^ 32 → P (fields ++ data))
    (hshort : ∀ payload, payload.length < 2 ^ 32 → P payload →
      fields.length + data.length < 2 ^ 32) :
    (∃ received payload,
        netReceiveMessage (header.bytes ++ (fields ++ data)) = some (received, payload) ∧
          received.type = header.type ∧ received.term = header.term ∧ P payload) ↔
      fields.length + data.length < 2 ^ 32 ∧ clusterCrc32 (fields ++ data) = 0 := by
  have hwhole : fields.length + data.length < 2 ^ 32 →
      netReceiveMessage (header.bytes ++ (fields ++ data)) =
        if clusterCrc32 (fields ++ data) = 0 then some (header, fields ++ data) else none := by
    intro hfits
    have hpayloadLen : header.payloadLen.toNat = (fields ++ data).length := by
      rw [hlen, UInt32.toNat_ofNat_of_lt' hfits, List.length_append]
    have hpayload : 0 < (fields ++ data).length := by
      rw [List.length_append]
      omega
    rw [netReceiveMessage_payload hmagic hpayload hpayloadLen, hchecksum]
  constructor
  · rintro ⟨received, payload, hreceive, _, _, hP⟩
    have hfits := hshort payload (length_netReceiveMessage hreceive) hP
    refine ⟨hfits, ?_⟩
    rw [hwhole hfits] at hreceive
    split at hreceive
    · assumption
    · cases hreceive
  · rintro ⟨hfits, hcrc⟩
    refine ⟨header, fields ++ data, ?_, rfl, rfl, hread hfits⟩
    rw [hwhole hfits, if_pos hcrc]

end Raw

/-! ## Replicated data -/

/-- The header `replicate_data` sends to one replica. -/
def replicateHeader (selfNodeId receiverId : NodeId) (term : Term) (data : List UInt8) :
    ClusterMessageHeader where
  magic := clusterMagic
  version := protocolVersion
  type := msgReplicateData
  senderId := selfNodeId
  receiverId := receiverId
  term := term
  payloadLen := UInt32.ofNat (24 + data.length)
  checksum := 0

/-- The rest of `ReplicateData`, with four bytes of padding behind each of its 32-bit members. -/
def replicateFields (partitionId : UInt32) (sequenceNum : UInt64) (data : List UInt8) :
    List UInt8 :=
  leBytes 4 partitionId.toNat ++ leBytes 4 0 ++ leBytes 8 sequenceNum.toNat ++
    leBytes 4 data.length ++ leBytes 4 0

def replicateBytes (selfNodeId receiverId : NodeId) (term : Term) (partitionId : UInt32)
    (sequenceNum : UInt64) (data : List UInt8) : List UInt8 :=
  (replicateHeader selfNodeId receiverId term data).bytes ++
    (replicateFields partitionId sequenceNum data ++ data)

/-- The partition and the data of a `ReplicateData` whose header has been taken off. -/
def readReplicated (payload : List UInt8) : UInt32 × List UInt8 :=
  (UInt32.ofNat (leNat (payload.take 4)),
    (payload.drop 24).take (leNat ((payload.drop 16).take 4)))

/-- The replica reads back what the leader has sent. -/
def ReplicationSurvives (selfNodeId receiverId : NodeId) (term : Term) (partitionId : UInt32)
    (sequenceNum : UInt64) (data : List UInt8) : Prop :=
  ∃ header payload,
    netReceiveMessage
        (replicateBytes selfNodeId receiverId term partitionId sequenceNum data) =
      some (header, payload) ∧
      header.type = msgReplicateData ∧ header.term = term ∧
        readReplicated payload = (partitionId, data)

theorem length_replicateFields (partitionId : UInt32) (sequenceNum : UInt64)
    (data : List UInt8) : (replicateFields partitionId sequenceNum data).length = 24 := by
  simp [replicateFields]

theorem readReplicated_fields {partitionId : UInt32} {sequenceNum : UInt64} {data : List UInt8}
    (hfits : data.length < 2 ^ 32) :
    readReplicated (replicateFields partitionId sequenceNum data ++ data) =
      (partitionId, data) := by
  have hid : leNat (leBytes 4 partitionId.toNat) = partitionId.toNat := by
    rw [leNat_leBytes]
    exact Nat.mod_eq_of_lt partitionId.toNat_lt
  have hlen : leNat (leBytes 4 data.length) = data.length := by
    rw [leNat_leBytes]
    exact Nat.mod_eq_of_lt hfits
  have htake : (replicateFields partitionId sequenceNum data ++ data).take 4 =
      leBytes 4 partitionId.toNat := by
    simp [replicateFields]
  have hdrop : ((replicateFields partitionId sequenceNum data ++ data).drop 16).take 4 =
      leBytes 4 data.length := by
    have hfirst : (leBytes 4 partitionId.toNat ++ leBytes 4 0 ++
        leBytes 8 sequenceNum.toNat).length = 16 := by simp
    unfold replicateFields
    rw [List.append_assoc _ (leBytes 4 data.length), List.append_assoc, List.drop_left' hfirst,
      List.append_assoc, List.take_left' (length_leBytes 4 _)]
  have hdata : (replicateFields partitionId sequenceNum data ++ data).drop 24 = data :=
    List.drop_left' (length_replicateFields partitionId sequenceNum data)
  unfold readReplicated
  rw [htake, hdrop, hdata, hid, hlen, UInt32.ofNat_toNat, List.take_length]

/-- Replicated data survives only if the checksum of its payload happens to be zero. -/
theorem replicationSurvives_iff (selfNodeId receiverId : NodeId) (term : Term)
    (partitionId : UInt32) (sequenceNum : UInt64) (data : List UInt8) :
    ReplicationSurvives selfNodeId receiverId term partitionId sequenceNum data ↔
      24 + data.length < 2 ^ 32 ∧
        clusterCrc32 (replicateFields partitionId sequenceNum data ++ data) = 0 := by
  have hfields := length_replicateFields partitionId sequenceNum data
  rw [← hfields]
  refine survives_raw_iff rfl rfl ?_ ?_ ?_ ?_
  · rw [hfields]
    rfl
  · rw [hfields]
    decide
  · intro hfits
    exact readReplicated_fields (by omega)
  · intro payload hshort hread
    have hdata := congrArg (fun r => r.2.length) hread
    simp only [readReplicated, List.length_take, List.length_drop] at hdata
    omega

/-! ## Forwarded queries -/

/-- The header `cluster_forward_to_leader` sends. -/
def forwardHeader (selfNodeId leaderId : NodeId) (term : Term) (query : CStr) :
    ClusterMessageHeader where
  magic := clusterMagic
  version := protocolVersion
  type := msgQueryForward
  senderId := selfNodeId
  receiverId := leaderId
  term := term
  payloadLen := UInt32.ofNat (16 + query.length)
  checksum := 0

/-- The rest of `QueryForward`: no client, no query number, and four bytes of padding behind the
length. -/
def forwardFields (query : CStr) : List UInt8 :=
  leBytes 4 0 ++ leBytes 4 0 ++ leBytes 4 query.length ++ leBytes 4 0

def forwardBytes (selfNodeId leaderId : NodeId) (term : Term) (query : CStr) : List UInt8 :=
  (forwardHeader selfNodeId leaderId term query).bytes ++ (forwardFields query ++ query.val)

/-- The query of a `QueryForward` whose header has been taken off. -/
def readForwarded (payload : List UInt8) : List UInt8 :=
  (payload.drop 16).take (leNat ((payload.drop 8).take 4))

/-- The leader reads back the query a follower has forwarded. -/
def ForwardSurvives (selfNodeId leaderId : NodeId) (term : Term) (query : CStr) : Prop :=
  ∃ header payload,
    netReceiveMessage (forwardBytes selfNodeId leaderId term query) = some (header, payload) ∧
      header.type = msgQueryForward ∧ header.term = term ∧ readForwarded payload = query.val

theorem length_forwardFields (query : CStr) : (forwardFields query).length = 16 := by
  simp [forwardFields]

theorem readForwarded_fields {query : CStr} (hfits : query.length < 2 ^ 32) :
    readForwarded (forwardFields query ++ query.val) = query.val := by
  have hlen : leNat (leBytes 4 query.length) = query.length := by
    rw [leNat_leBytes]
    exact Nat.mod_eq_of_lt hfits
  have hdrop : ((forwardFields query ++ query.val).drop 8).take 4 = leBytes 4 query.length := by
    have hfirst : (leBytes 4 0 ++ leBytes 4 0).length = 8 := by simp
    unfold forwardFields
    rw [List.append_assoc _ (leBytes 4 query.length), List.append_assoc, List.drop_left' hfirst,
      List.append_assoc, List.take_left' (length_leBytes 4 _)]
  have hdata : (forwardFields query ++ query.val).drop 16 = query.val :=
    List.drop_left' (length_forwardFields query)
  unfold readForwarded
  rw [hdrop, hdata, hlen]
  exact List.take_length

theorem forwardSurvives_iff (selfNodeId leaderId : NodeId) (term : Term) (query : CStr) :
    ForwardSurvives selfNodeId leaderId term query ↔
      16 + query.length < 2 ^ 32 ∧ clusterCrc32 (forwardFields query ++ query.val) = 0 := by
  have hfields := length_forwardFields query
  rw [← hfields]
  refine survives_raw_iff rfl rfl ?_ ?_ ?_ ?_
  · rw [hfields]
    rfl
  · rw [hfields]
    decide
  · intro hfits
    exact readForwarded_fields (by change _ + query.length < _ at hfits; omega)
  · intro payload hshort hread
    have hdata := congrArg List.length hread
    simp only [readForwarded, List.length_take, List.length_drop] at hdata
    change _ = query.length at hdata
    change _ + query.length < _
    omega

/-! ## Every kind of message -/

/-- No vote response survives the wire; replicated data and forwarded queries do exactly if they
are short enough for their length field and the checksum of their payload is zero. -/
theorem messages_survive_iff (node : RaftNode) (request : VoteRequest) (checksum : UInt32)
    (padding : List UInt8) (selfNodeId receiverId leaderId : NodeId) (term : Term)
    (partitionId : UInt32) (sequenceNum : UInt64) (data : List UInt8) (query : CStr) :
    ¬ VoteSurvives node request checksum padding ∧
      (ReplicationSurvives selfNodeId receiverId term partitionId sequenceNum data ↔
        24 + data.length < 2 ^ 32 ∧
          clusterCrc32 (replicateFields partitionId sequenceNum data ++ data) = 0) ∧
      (ForwardSurvives selfNodeId leaderId term query ↔
        16 + query.length < 2 ^ 32 ∧ clusterCrc32 (forwardFields query ++ query.val) = 0) :=
  ⟨not_voteSurvives node request checksum padding,
    replicationSurvives_iff selfNodeId receiverId term partitionId sequenceNum data,
    forwardSurvives_iff selfNodeId leaderId term query⟩

/-- A granted vote, one byte of data and an empty query: none of them survives. -/
theorem messages_lost :
    ((clusterInit 1).raftHandleVoteRequest
        { senderId := 2, term := 1, lastLogIndex := 0, lastLogTerm := 0 }).1.voteGranted = true ∧
      ¬ VoteSurvives (clusterInit 1)
        { senderId := 2, term := 1, lastLogIndex := 0, lastLogTerm := 0 } 0 [] ∧
      ¬ ReplicationSurvives 1 2 1 0 0 [97] ∧ ¬ ForwardSurvives 1 2 1 (CStr.lit "") := by
  refine ⟨by decide, not_voteSurvives _ _ _ _, fun hdata => ?_, fun hquery => ?_⟩
  · exact absurd ((replicationSurvives_iff _ _ _ _ _ _).mp hdata).2 (by decide +kernel)
  · exact absurd ((forwardSurvives_iff _ _ _ _).mp hquery).2 (by decide +kernel)

end Cluster
end InventixDB
