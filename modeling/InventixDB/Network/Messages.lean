import InventixDB.Network.AsyncReads
import Mathlib.Data.Nat.Log

/-!
# Messages — building, sending and receiving a message

A builder appends chunks behind a header and doubles its buffer when they have no room.  A sender
fills in the header it is given and sends the payload behind it, and a receiver checks the header
before it reads the payload.
-/

namespace InventixDB
namespace Network

open Lib
open Lib.ByteCodec

theorem netMsgValidateHeader_iff {header : NetMessageHeader} :
    netMsgValidateHeader header = true ↔ header.magic = netMagic ∧ header.type < msgTypeMax ∧
      header.payloadLen.toNat ≤ netMaxMessageSize - netHeaderSize := by
  unfold netMsgValidateHeader
  split
  next hmagic => exact iff_of_false Bool.false_ne_true fun h => hmagic h.1
  next hmagic =>
      rw [and_iff_right (not_not.mp hmagic)]
      split
      next htype => exact iff_of_false Bool.false_ne_true fun h => UInt8.not_le.mpr h.1 htype
      next htype =>
          rw [and_iff_right (UInt8.not_le.mp htype)]
          split
          next hlen => exact iff_of_false Bool.false_ne_true (Nat.not_le.mpr hlen)
          next hlen => exact iff_of_true rfl (Nat.not_lt.mp hlen)

/-! ## Building -/

/-- The header is at the front of the buffer, and `used` counts it and the body. -/
structure NetMessageBuilder where
  header : NetMessageHeader
  body : List UInt8
  capacity : Nat
  room : netHeaderSize + body.length ≤ capacity
  deriving DecidableEq

/-- `NET_PROTOCOL_VERSION` -/
def netProtocolVersion : UInt16 := 0x0100

/-- What `net_msg_builder_create` makes of a capacity. -/
def builderCapacity (initialCapacity : Nat) : Nat :=
  if initialCapacity < netHeaderSize + 64 then netHeaderSize + 1024 else initialCapacity

theorem netHeaderSize_le_builderCapacity (initialCapacity : Nat) :
    netHeaderSize ≤ builderCapacity initialCapacity := by
  unfold builderCapacity
  split <;> omega

def netMsgBuilderCreate (initialCapacity : Nat) : NetMessageBuilder where
  header :=
    { magic := netMagic
      version := netProtocolVersion
      type := 0
      flags := 0
      sequence := 0
      payloadLen := 0 }
  body := []
  capacity := builderCapacity initialCapacity
  room := netHeaderSize_le_builderCapacity initialCapacity

/-- The loop of `net_msg_builder_append`: whether there is room, and the capacity it ends with. -/
def grow (needed capacity : Nat) (hpos : 0 < capacity) : Bool × Nat :=
  if needed ≤ capacity then (true, capacity)
  else if capacity * 2 > netMaxMessageSize then (false, capacity)
  else grow needed (capacity * 2) (Nat.mul_pos hpos Nat.two_pos)
termination_by needed - capacity

/-- What a capacity can be doubled to. -/
def capacityLimit (capacity : Nat) : Nat :=
  capacity * 2 ^ Nat.log 2 (netMaxMessageSize / capacity)

theorem capacityLimit_double {capacity : Nat} (hpos : 0 < capacity)
    (hroom : capacity * 2 ≤ netMaxMessageSize) :
    capacityLimit (capacity * 2) = capacityLimit capacity := by
  have hquot : 2 ≤ netMaxMessageSize / capacity := by
    rw [Nat.le_div_iff_mul_le hpos, Nat.mul_comm]
    exact hroom
  have hlog : Nat.log 2 (netMaxMessageSize / capacity) =
      Nat.log 2 (netMaxMessageSize / (capacity * 2)) + 1 := by
    rw [← Nat.div_div_eq_div_mul, Nat.log_of_one_lt_of_le Nat.one_lt_two hquot]
  rw [capacityLimit, capacityLimit, hlog, pow_succ, Nat.mul_assoc, Nat.mul_comm 2]

theorem capacityLimit_of_lt {capacity : Nat} (hpos : 0 < capacity)
    (hfull : netMaxMessageSize < capacity * 2) : capacityLimit capacity = capacity := by
  have hquot : netMaxMessageSize / capacity < 2 := by
    rw [Nat.div_lt_iff_lt_mul hpos, Nat.mul_comm]
    exact hfull
  rw [capacityLimit, Nat.log_of_lt hquot, pow_zero, Nat.mul_one]

theorem le_capacityLimit (capacity : Nat) : capacity ≤ capacityLimit capacity :=
  Nat.le_mul_of_pos_right _ (Nat.two_pow_pos _)

/-- What is needed has room just when it is within the limit, which does not change. -/
theorem grow_spec {needed capacity : Nat} (hpos : 0 < capacity) :
    ((grow needed capacity hpos).1 = true ↔ needed ≤ capacityLimit capacity) ∧
      capacityLimit (grow needed capacity hpos).2 = capacityLimit capacity ∧
      capacity ≤ (grow needed capacity hpos).2 ∧
      ((grow needed capacity hpos).1 = true → needed ≤ (grow needed capacity hpos).2) := by
  fun_induction grow needed capacity hpos with
  | case1 capacity hpos hroom =>
      exact ⟨iff_of_true rfl (hroom.trans (le_capacityLimit capacity)), rfl, Nat.le_refl _,
        fun _ => hroom⟩
  | case2 capacity hpos hroom hfull =>
      rw [capacityLimit_of_lt hpos hfull]
      exact ⟨iff_of_false Bool.false_ne_true hroom, rfl, Nat.le_refl _, fun h => nomatch h⟩
  | case3 capacity hpos hroom hfull ih =>
      rw [capacityLimit_double hpos (Nat.not_lt.mp hfull)] at ih
      exact ⟨ih.1, ih.2.1, by omega, ih.2.2.2⟩

/-- `net_msg_builder_append`, and whether it returns 0.  A chunk without bytes is refused. -/
def netMsgBuilderAppend (builder : NetMessageBuilder) (data : List UInt8) :
    NetMessageBuilder × Bool :=
  have hpos : 0 < builder.capacity := Nat.lt_of_lt_of_le (by decide : 0 < netHeaderSize)
    ((Nat.le_add_right _ _).trans builder.room)
  if data = [] then (builder, false)
  else
    let needed := netHeaderSize + builder.body.length + data.length
    let grown := grow needed builder.capacity hpos
    if hroom : grown.1 = true then
      ({ builder with
        body := builder.body ++ data
        capacity := grown.2
        room := by
          rw [List.length_append, ← Nat.add_assoc]
          exact (grow_spec hpos).2.2.2 hroom }, true)
    else
      ({ builder with
        capacity := grown.2
        room := builder.room.trans (grow_spec hpos).2.2.1 }, false)

/-- `sequence` is the static counter, one further on. -/
def netMsgBuilderFinalize (builder : NetMessageBuilder) (sequence : UInt32) : NetMessageBuilder :=
  { builder with
    header :=
      { builder.header with
        payloadLen := UInt32.ofNat builder.body.length
        sequence := sequence } }

/-- `net_msg_builder_data`: the bytes in use. -/
def netMsgBuilderData (builder : NetMessageBuilder) : List UInt8 :=
  builder.header.bytes ++ builder.body

/-- `net_msg_get_payload`: what it points to, and the length it gives. -/
def netMsgGetPayload (data : List UInt8) : Option (List UInt8 × Nat) :=
  (copyHeader data).map fun header => (data.drop netHeaderSize, header.payloadLen.toNat)

/-! ## Whole messages -/

/-- The chunks one after another, with those that were taken. -/
def appendAll : NetMessageBuilder → List (List UInt8) → NetMessageBuilder × List (List UInt8)
  | builder, [] => (builder, [])
  | builder, data :: chunks =>
      let appended := netMsgBuilderAppend builder data
      let rest := appendAll appended.1 chunks
      (rest.1, if appended.2 then data :: rest.2 else rest.2)

/-- A chunk is refused only where the message would be too long, and then what there is stays. -/
def AppendsRightly : NetMessageBuilder → List (List UInt8) → Prop
  | _, [] => True
  | builder, data :: chunks =>
      ((netMsgBuilderAppend builder data).2 = false →
        netMaxMessageSize < netHeaderSize + builder.body.length + data.length ∧
          netMsgBuilderData (netMsgBuilderAppend builder data).1 = netMsgBuilderData builder) ∧
      AppendsRightly (netMsgBuilderAppend builder data).1 chunks

/-- The message is read back: its header is valid, and its payload is what was taken. -/
def ReadsBack (builder : NetMessageBuilder) (sequence : UInt32) (chunks : List (List UInt8)) :
    Prop :=
  let built := appendAll builder chunks
  let data := netMsgBuilderData (netMsgBuilderFinalize built.1 sequence)
  (∃ header, netMsgParseHeader data = some header ∧ netMsgValidateHeader header = true) ∧
    netMsgGetPayload data = some (built.2.flatten, built.2.flatten.length)

/-- A chunk comes within the limit of the buffer just when it comes within that of a message.  The
size of the body goes on with the chunks that do. -/
def ChunksFit (limit : Nat) : Nat → List (List UInt8) → Prop
  | _, [] => True
  | size, data :: chunks =>
      (netHeaderSize + size + data.length ≤ limit ↔
        netHeaderSize + size + data.length ≤ netMaxMessageSize) ∧
      ChunksFit limit
        (if netHeaderSize + size + data.length ≤ limit then size + data.length else size) chunks

instance decidableChunksFit (limit : Nat) :
    (size : Nat) → (chunks : List (List UInt8)) → Decidable (ChunksFit limit size chunks)
  | _, [] => isTrue trivial
  | _, _ :: chunks =>
      have := fun size => decidableChunksFit limit size chunks
      inferInstanceAs (Decidable (_ ∧ _))

theorem append_spec (builder : NetMessageBuilder) {data : List UInt8} (hdata : data ≠ []) :
    ((netMsgBuilderAppend builder data).2 = true ↔
      netHeaderSize + builder.body.length + data.length ≤ capacityLimit builder.capacity) ∧
    (netMsgBuilderAppend builder data).1.body =
      (if (netMsgBuilderAppend builder data).2 then builder.body ++ data else builder.body) ∧
    (netMsgBuilderAppend builder data).1.header = builder.header ∧
    capacityLimit (netMsgBuilderAppend builder data).1.capacity =
      capacityLimit builder.capacity := by
  have hpos : 0 < builder.capacity := Nat.lt_of_lt_of_le (by decide : 0 < netHeaderSize)
    ((Nat.le_add_right _ _).trans builder.room)
  obtain ⟨hroom, hlimit, _, _⟩ := @grow_spec
    (netHeaderSize + builder.body.length + data.length) builder.capacity hpos
  unfold netMsgBuilderAppend
  rw [if_neg hdata]
  dsimp only
  split
  next hgrown => exact ⟨iff_of_true rfl (hroom.mp hgrown), rfl, rfl, hlimit⟩
  next hgrown => exact ⟨iff_of_false Bool.false_ne_true (mt hroom.mpr hgrown), rfl, rfl, hlimit⟩

/-- The body grows by the chunks that were taken, and nothing else changes what is built. -/
theorem appendAll_spec (builder : NetMessageBuilder) {chunks : List (List UInt8)}
    (hchunks : ∀ data ∈ chunks, data ≠ []) :
    (appendAll builder chunks).1.body = builder.body ++ (appendAll builder chunks).2.flatten ∧
      (appendAll builder chunks).1.header = builder.header := by
  induction chunks generalizing builder with
  | nil => exact ⟨(List.append_nil _).symm, rfl⟩
  | cons data chunks ih =>
      obtain ⟨hdata, hchunks⟩ := List.forall_mem_cons.mp hchunks
      obtain ⟨_, hbody, hheader, _⟩ := append_spec builder hdata
      obtain ⟨hrest, hkept⟩ := ih (netMsgBuilderAppend builder data).1 hchunks
      refine ⟨?_, hkept.trans hheader⟩
      rw [appendAll, hrest, hbody]
      cases (netMsgBuilderAppend builder data).2 with
      | false => rfl
      | true => exact List.append_assoc _ _ _

/-- From a body within a message, the chunks are treated rightly and the body stays within a
message just when the two limits do not come apart. -/
theorem chunksFit_iff (builder : NetMessageBuilder) {chunks : List (List UInt8)}
    (hchunks : ∀ data ∈ chunks, data ≠ [])
    (hbody : netHeaderSize + builder.body.length ≤ netMaxMessageSize) :
    AppendsRightly builder chunks ∧
        netHeaderSize + (appendAll builder chunks).1.body.length ≤ netMaxMessageSize ↔
      ChunksFit (capacityLimit builder.capacity) builder.body.length chunks := by
  induction chunks generalizing builder with
  | nil => exact iff_of_true ⟨trivial, hbody⟩ trivial
  | cons data chunks ih =>
      obtain ⟨hdata, hchunks⟩ := List.forall_mem_cons.mp hchunks
      obtain ⟨htaken, hgrown, hheader, hlimit⟩ := append_spec builder hdata
      have hrest := ih (netMsgBuilderAppend builder data).1 hchunks
      have hfinal := (appendAll_spec (netMsgBuilderAppend builder data).1 hchunks).1
      rw [hlimit] at hrest
      rw [ChunksFit, AppendsRightly, appendAll]
      cases hok : (netMsgBuilderAppend builder data).2 with
      | true =>
          have hfits := htaken.mp hok
          rw [hok, if_pos rfl] at hgrown
          rw [if_pos hfits, iff_true_left hfits]
          rw [hgrown, List.length_append] at hrest
          by_cases hmax : netHeaderSize + builder.body.length + data.length ≤ netMaxMessageSize
          · rw [and_iff_right hmax, ← hrest (by omega)]
            exact ⟨fun h => ⟨h.1.2, h.2⟩, fun h => ⟨⟨(fun hne => nomatch hne), h.1⟩, h.2⟩⟩
          · -- the bytes past the end of a message are there to stay
            refine iff_of_false (fun h => hmax ?_) (fun h => hmax h.1)
            have hlong := h.2
            rw [hfinal, hgrown, List.length_append, List.length_append] at hlong
            omega
      | false =>
          have hfull : ¬ netHeaderSize + builder.body.length + data.length ≤
              capacityLimit builder.capacity :=
            fun hfits => Bool.false_ne_true (hok.symm.trans (htaken.mpr hfits))
          rw [hok, if_neg Bool.false_ne_true] at hgrown
          have hsame : netMsgBuilderData (netMsgBuilderAppend builder data).1 =
              netMsgBuilderData builder := by
            rw [netMsgBuilderData, hgrown, hheader, netMsgBuilderData]
          rw [if_neg hfull, iff_false_left hfull, ← hgrown, ← hrest (by rw [hgrown]; exact hbody),
            hgrown, Nat.not_le]
          exact ⟨fun h => ⟨(h.1.1 rfl).1, h.1.2, h.2⟩,
            fun h => ⟨⟨fun _ => ⟨h.1, hsame⟩, h.2.1⟩, h.2.2⟩⟩

/-- A message is read back just when its length is that of a message. -/
theorem readsBack_iff (initialCapacity : Nat) (sequence : UInt32) {chunks : List (List UInt8)}
    (hchunks : ∀ data ∈ chunks, data ≠ []) :
    ReadsBack (netMsgBuilderCreate initialCapacity) sequence chunks ↔
      netHeaderSize + (appendAll (netMsgBuilderCreate initialCapacity) chunks).1.body.length ≤
        netMaxMessageSize := by
  obtain ⟨hbody, hheader⟩ := appendAll_spec (netMsgBuilderCreate initialCapacity) hchunks
  unfold ReadsBack
  generalize appendAll (netMsgBuilderCreate initialCapacity) chunks = built at hbody hheader ⊢
  replace hbody : built.1.body = built.2.flatten := hbody
  set finalized := netMsgBuilderFinalize built.1 sequence with hfinalized
  have hlen : finalized.header.payloadLen = UInt32.ofNat built.1.body.length := rfl
  have hmagic : finalized.header.magic = netMagic := by
    rw [hfinalized, netMsgBuilderFinalize, hheader]
    rfl
  have htype : finalized.header.type = 0 := by
    rw [hfinalized, netMsgBuilderFinalize, hheader]
    rfl
  have hdata : netMsgBuilderData finalized = finalized.header.bytes ++ built.1.body := rfl
  have hvalid : netMsgValidateHeader finalized.header = true ↔
      finalized.header.payloadLen.toNat ≤ netMaxMessageSize - netHeaderSize := by
    rw [netMsgValidateHeader_iff, and_iff_right hmagic, and_iff_right (by rw [htype]; decide)]
  have hexact : netHeaderSize + built.1.body.length ≤ netMaxMessageSize →
      (UInt32.ofNat built.1.body.length).toNat = built.1.body.length := by
    intro hsize
    refine UInt32.toNat_ofNat_of_lt' (Nat.lt_of_le_of_lt ?_ (by decide : netMaxMessageSize < _))
    omega
  dsimp only
  rw [hdata, netMsgParseHeader_bytes hmagic, netMsgGetPayload, copyHeader_bytes, Option.map_some,
    List.drop_left' (length_headerBytes _), hlen, ← hbody]
  rw [hlen] at hvalid
  constructor
  · rintro ⟨⟨header, hparsed, hheader⟩, hpayload⟩
    cases hparsed
    have hshort := hvalid.mp hheader
    have htotal : (UInt32.ofNat built.1.body.length).toNat = built.1.body.length :=
      congrArg Prod.snd (Option.some_inj.mp hpayload)
    rw [htotal] at hshort
    have : netHeaderSize ≤ netMaxMessageSize := by decide
    omega
  · intro hsize
    have hshort : built.1.body.length ≤ netMaxMessageSize - netHeaderSize := by omega
    exact ⟨⟨_, rfl, hvalid.mpr (by rwa [hexact hsize])⟩, by rw [hexact hsize]⟩

/-- Chunks are appended rightly and read back just when they fit the buffer where they fit a
message. -/
theorem built_message_iff (initialCapacity : Nat) (sequence : UInt32) (chunks : List (List UInt8))
    (hchunks : ∀ data ∈ chunks, data ≠ []) :
    (AppendsRightly (netMsgBuilderCreate initialCapacity) chunks ∧
        ReadsBack (netMsgBuilderCreate initialCapacity) sequence chunks) ↔
      ChunksFit (capacityLimit (builderCapacity initialCapacity)) 0 chunks := by
  rw [readsBack_iff initialCapacity sequence hchunks]
  have hempty : netHeaderSize + (netMsgBuilderCreate initialCapacity).body.length ≤
      netMaxMessageSize := (by decide : netHeaderSize + 0 ≤ netMaxMessageSize)
  exact chunksFit_iff (netMsgBuilderCreate initialCapacity) hchunks hempty

/-- Two chunks in a buffer that grows for the second. -/
theorem built_message_twoChunks :
    AppendsRightly (netMsgBuilderCreate 80) [List.replicate 60 1, List.replicate 50 2] ∧
      ReadsBack (netMsgBuilderCreate 80) 1 [List.replicate 60 1, List.replicate 50 2] :=
  (built_message_iff 80 1 [List.replicate 60 1, List.replicate 50 2] (by decide)).mpr (by decide)

/-- A buffer of the default size refuses a chunk of 40 MB, which a message has room for. -/
theorem long_chunk_refused :
    ¬ ∀ (initialCapacity : Nat) (sequence : UInt32) (chunks : List (List UInt8)),
      (∀ data ∈ chunks, data ≠ []) →
        AppendsRightly (netMsgBuilderCreate initialCapacity) chunks ∧
          ReadsBack (netMsgBuilderCreate initialCapacity) sequence chunks := by
  intro h
  obtain ⟨data, hlen⟩ : ∃ data : List UInt8, data.length = 41943040 :=
    ⟨List.replicate 41943040 0, List.length_replicate⟩
  have hdata : data ≠ [] := List.ne_nil_of_length_pos (by rw [hlen]; exact Nat.succ_pos _)
  have hrefused : (netMsgBuilderAppend (netMsgBuilderCreate 0) data).2 = false := by
    rw [← Bool.not_eq_true, (append_spec (netMsgBuilderCreate 0) hdata).1, hlen]
    decide +kernel
  have hlong := ((h 0 1 [data] (List.forall_mem_singleton.mpr hdata)).1.1 hrefused).1
  rw [hlen] at hlong
  exact absurd hlong (by decide)

/-! ## Sending and receiving -/

/-- What `net_send_message` is given: a null pointer and a length, or bytes with theirs. -/
inductive Payload
  | null (length : Nat)
  | bytes (data : List UInt8)

def Payload.length : Payload → Nat
  | .null length => length
  | .bytes data => data.length

def Payload.data : Payload → List UInt8
  | .null _ => []
  | .bytes data => data

/-- `send_all`: the bytes on the wire, and the number of the next call.  `send` gives what each call
of it returns for the `int` it is given, and never sends more than there is. -/
def sendAll (send : Nat → Int → Int) (call : Nat) (data : List UInt8) :
    Option (List UInt8 × Nat) :=
  if data = [] then some ([], call)
  else
    let sent := send call (BitVec.ofNat 32 data.length).toInt
    if sent ≤ 0 then none
    else
      (sendAll send (call + 1) (data.drop sent.toNat)).map fun rest =>
        (data.take sent.toNat ++ rest.1, rest.2)
termination_by data.length
decreasing_by
  rename_i hdata hsent
  have hpos : 0 < data.length := List.length_pos_iff.mpr hdata
  rw [List.length_drop]
  omega

/-- `recv_exact`: the bytes, the number of the next call and what is left of the stream.  A call of
`recv` gives at most what it is asked for and what there is; an error is a call that gives none. -/
def recvExact (recv : Nat → Nat) (call len : Nat) (stream : List UInt8) :
    Option (List UInt8 × Nat × List UInt8) :=
  if len = 0 then some ([], call, stream)
  else
    let received := min (recv call) (min len stream.length)
    if received = 0 then none
    else
      (recvExact recv (call + 1) (len - received) (stream.drop received)).map fun rest =>
        (stream.take received ++ rest.1, rest.2)
termination_by len

/-- The header that `net_send_message` puts in front. -/
def sentHeader (header : NetMessageHeader) (payload : Payload) : NetMessageHeader :=
  { header with
    magic := netMagic
    version := netProtocolVersion
    payloadLen := UInt32.ofNat payload.length }

/-- `net_send_message`: what is on the wire when it returns 0. -/
def netSendMessage (send : Nat → Int → Int) (header : NetMessageHeader) (payload : Payload) :
    Option (List UInt8) := do
  let (wire, call) ← sendAll send 0 (sentHeader header payload).bytes
  match payload with
  | .null _ => some wire
  | .bytes data =>
      if data.length > 0 then
        let (body, _) ← sendAll send call data
        some (wire ++ body)
      else some wire

/-- `net_recv_message`: the header, the payload and what is left of the stream.  A payload without
bytes is a null pointer. -/
def netRecvMessage (recv : Nat → Nat) (stream : List UInt8) :
    Option (NetMessageHeader × List UInt8 × List UInt8) := do
  let (headerBuf, call, stream) ← recvExact recv 0 netHeaderSize stream
  let header ← netMsgParseHeader headerBuf
  if netMsgValidateHeader header then
    if header.payloadLen.toNat > 0 then
      let (payload, _, stream) ← recvExact recv call header.payloadLen.toNat stream
      some (header, payload, stream)
    else some (header, [], stream)
  else none

/-- All of the bytes are on the wire when `send_all` succeeds. -/
theorem sendAll_eq_some {send : Nat → Int → Int} {call : Nat} {data : List UInt8}
    {sent : List UInt8 × Nat} (hsend : sendAll send call data = some sent) : sent.1 = data := by
  fun_induction sendAll send call data generalizing sent
  case case1 =>
      cases hsend
      rfl
  case case2 => cases hsend
  case case3 call data hdata count hpos ih =>
      obtain ⟨rest, hrest, rfl⟩ := Option.map_eq_some_iff.mp hsend
      dsimp only
      rw [ih hrest, List.take_append_drop]

theorem netSendMessage_eq_some {send : Nat → Int → Int} {header : NetMessageHeader}
    {payload : Payload} {wire : List UInt8}
    (hsend : netSendMessage send header payload = some wire) :
    wire = (sentHeader header payload).bytes ++ payload.data := by
  obtain ⟨⟨front, call⟩, hfront, hrest⟩ := Option.bind_eq_some_iff.mp hsend
  replace hfront : front = (sentHeader header payload).bytes := sendAll_eq_some hfront
  subst hfront
  cases payload with
  | null length =>
      cases hrest
      exact (List.append_nil _).symm
  | bytes data =>
      dsimp only at hrest
      split at hrest
      · obtain ⟨⟨body, _⟩, hbody, hwire⟩ := Option.bind_eq_some_iff.mp hrest
        replace hbody : body = data := sendAll_eq_some hbody
        cases hwire
        rw [hbody]
        rfl
      · next hempty =>
          cases hrest
          rw [Payload.data, List.length_eq_zero_iff.mp (Nat.eq_zero_of_not_pos hempty),
            List.append_nil]

/-- What is received are the next bytes of the stream. -/
theorem recvExact_eq_some {recv : Nat → Nat} {call len next : Nat} {stream got rest : List UInt8}
    (hrecv : recvExact recv call len stream = some (got, next, rest)) :
    got.length = len ∧ stream = got ++ rest := by
  fun_induction recvExact recv call len stream generalizing got
  case case1 =>
      cases hrecv
      exact ⟨rfl, rfl⟩
  case case2 => cases hrecv
  case case3 call len stream hlen received hpos ih =>
      obtain ⟨⟨more, _, _⟩, hrest, heq⟩ := Option.map_eq_some_iff.mp hrecv
      cases heq
      obtain ⟨hmore, hdrop⟩ := ih hrest
      have hle : received ≤ min len stream.length := Nat.min_le_right _ _
      constructor
      · rw [List.length_append, List.length_take, hmore]
        omega
      · rw [List.append_assoc, ← hdrop, List.take_append_drop]

/-- While every call gives something, what is there is received. -/
theorem recvExact_append {recv : Nat → Nat} (hrecv : ∀ call, 0 < recv call) (call : Nat)
    (data rest : List UInt8) :
    ∃ next, recvExact recv call data.length (data ++ rest) = some (data, next, rest) := by
  have hexact : ∀ len stream, len ≤ stream.length →
      (recvExact recv call len stream).isSome = true := by
    intro len stream
    fun_induction recvExact recv call len stream with
    | case1 => exact fun _ => rfl
    | case2 call len stream hlen received hnone =>
        intro hle
        have := hrecv call
        simp only [received] at hnone
        omega
    | case3 call len stream hlen received hpos ih =>
        intro hle
        rw [Option.isSome_map]
        refine ih ?_
        rw [List.length_drop]
        omega
  obtain ⟨⟨got, next, left⟩, hgot⟩ := Option.isSome_iff_exists.mp
    (hexact data.length (data ++ rest) (by rw [List.length_append]; exact Nat.le_add_right _ _))
  obtain ⟨hlen, happ⟩ := recvExact_eq_some hgot
  obtain ⟨hdata, hleft⟩ := List.append_inj happ hlen.symm
  exact ⟨next, by rw [hgot, hdata, hleft]⟩

/-- A valid header is received with as many bytes as it announces. -/
theorem netRecvMessage_eq_some_iff {recv : Nat → Nat} (hrecv : ∀ call, 0 < recv call)
    {sent header : NetMessageHeader} {stream got rest : List UInt8} :
    netRecvMessage recv (sent.bytes ++ stream) = some (header, got, rest) ↔
      header = sent ∧ netMsgValidateHeader sent = true ∧ got.length = sent.payloadLen.toNat ∧
        stream = got ++ rest := by
  have hfront := recvExact_append hrecv 0 sent.bytes stream
  rw [length_headerBytes] at hfront
  obtain ⟨call, hfront⟩ := hfront
  have hparse : netMsgValidateHeader sent = true → netMsgParseHeader sent.bytes = some sent := by
    intro hvalid
    rw [← List.append_nil sent.bytes]
    exact netMsgParseHeader_bytes (magic_of_validate hvalid) []
  constructor
  · intro hmessage
    rw [netRecvMessage, hfront] at hmessage
    obtain ⟨_, ⟨⟩, hparsing⟩ := Option.bind_eq_some_iff.mp hmessage
    obtain ⟨parsed, hparsed, hchecked⟩ := Option.bind_eq_some_iff.mp hparsing
    clear hmessage hparsing
    replace hparsed : parsed = sent := by
      rw [netMsgParseHeader, if_neg (by rw [length_headerBytes]; exact Nat.lt_irrefl _)] at hparsed
      have hcopied := (Option.filter_eq_some_iff.mp hparsed).1
      rw [← List.append_nil sent.bytes, copyHeader_bytes] at hcopied
      exact (Option.some_inj.mp hcopied).symm
    subst hparsed
    split at hchecked
    next hvalid =>
        split at hchecked
        · obtain ⟨⟨payload, _, left⟩, hpayload, hleft⟩ := Option.bind_eq_some_iff.mp hchecked
          cases hleft
          exact ⟨rfl, hvalid, recvExact_eq_some hpayload⟩
        · next hempty =>
            cases hchecked
            exact ⟨rfl, hvalid, (Nat.eq_zero_of_not_pos hempty).symm, rfl⟩
    next => cases hchecked
  · rintro ⟨rfl, hvalid, hlen, rfl⟩
    rw [netRecvMessage, hfront, Option.bind_eq_bind, Option.bind_some]
    dsimp only
    rw [hparse hvalid, Option.bind_eq_bind, Option.bind_some, if_pos hvalid]
    split
    · obtain ⟨next, hpayload⟩ := recvExact_append hrecv call got rest
      rw [← hlen, hpayload]
      rfl
    · next hempty =>
        rw [← hlen] at hempty
        rw [List.length_eq_zero_iff.mp (Nat.eq_zero_of_not_pos hempty)]
        rfl

/-- The receiver takes the type, and the bytes sent are those the header announces and few
enough. -/
def Receivable (header : NetMessageHeader) : Payload → Prop
  | .null length => header.type < msgTypeMax ∧ length % 2 ^ 32 = 0
  | .bytes data =>
      header.type < msgTypeMax ∧ data.length ≤ netMaxMessageSize - netHeaderSize

instance (header : NetMessageHeader) (payload : Payload) :
    Decidable (Receivable header payload) := by
  unfold Receivable
  split <;> infer_instance

theorem validate_sentHeader_iff (header : NetMessageHeader) (payload : Payload) :
    netMsgValidateHeader (sentHeader header payload) = true ↔
      header.type < msgTypeMax ∧
        payload.length % 2 ^ 32 ≤ netMaxMessageSize - netHeaderSize := by
  have hlen : (sentHeader header payload).payloadLen.toNat = payload.length % 2 ^ 32 :=
    UInt32.toNat_ofNat'
  rw [netMsgValidateHeader_iff, hlen]
  exact and_iff_right rfl

/-- What was sent is received whole just when the receiver can take it. -/
theorem sent_received_iff (send : Nat → Int → Int) (header : NetMessageHeader) (payload : Payload)
    (wire : List UInt8) (hsend : netSendMessage send header payload = some wire) :
    (∀ recv : Nat → Nat, (∀ call, 0 < recv call) → ∀ rest, ∃ received,
      netRecvMessage recv (wire ++ rest) = some (received, payload.data, rest) ∧
        received.type = header.type) ↔
      Receivable header payload := by
  have hwire := netSendMessage_eq_some hsend
  have hwhole : (∀ recv : Nat → Nat, (∀ call, 0 < recv call) → ∀ rest, ∃ received,
      netRecvMessage recv (wire ++ rest) = some (received, payload.data, rest) ∧
        received.type = header.type) ↔
      netMsgValidateHeader (sentHeader header payload) = true ∧
        payload.data.length = (sentHeader header payload).payloadLen.toNat := by
    rw [hwire]
    constructor
    · intro hall
      obtain ⟨received, hreceived, _⟩ := hall (fun _ => 1) (fun _ => Nat.one_pos) []
      rw [List.append_assoc, netRecvMessage_eq_some_iff fun _ => Nat.one_pos] at hreceived
      exact ⟨hreceived.2.1, hreceived.2.2.1⟩
    · rintro ⟨hvalid, hlen⟩ recv hrecv rest
      refine ⟨sentHeader header payload, ?_, rfl⟩
      rw [List.append_assoc, netRecvMessage_eq_some_iff hrecv]
      exact ⟨rfl, hvalid, hlen, rfl⟩
  have hlen : (sentHeader header payload).payloadLen.toNat = payload.length % 2 ^ 32 :=
    UInt32.toNat_ofNat'
  rw [hwhole, validate_sentHeader_iff, hlen, and_assoc]
  cases payload with
  | null length =>
      refine and_congr_right fun _ => ⟨fun h => h.2.symm, fun h => ⟨?_, h.symm⟩⟩
      exact (Nat.le_of_eq h).trans (Nat.zero_le _)
  | bytes data =>
      have hmax : netMaxMessageSize - netHeaderSize < 2 ^ 32 := by decide
      refine and_congr_right fun _ => ⟨fun h => ?_, fun h => ?_⟩
      · exact (Nat.le_of_eq h.2).trans h.1
      · have hexact : data.length % 2 ^ 32 = data.length := Nat.mod_eq_of_lt (by omega)
        exact ⟨(Nat.le_of_eq hexact).trans h, hexact.symm⟩

/-- Three bytes of payload, sent byte by byte and received in pairs. -/
theorem sent_received_threeBytes :
    ∃ received, netRecvMessage (fun _ => 2)
        ((sentHeader (netMsgBuilderCreate 0).header (.bytes [1, 2, 3])).bytes ++ [1, 2, 3] ++ [9]) =
      some (received, [1, 2, 3], [9]) ∧ received.type = 0 :=
  (sent_received_iff (fun _ _ => 1) (netMsgBuilderCreate 0).header (.bytes [1, 2, 3])
    ((sentHeader (netMsgBuilderCreate 0).header (.bytes [1, 2, 3])).bytes ++ [1, 2, 3])
    (by decide +kernel)).mpr (by decide) (fun _ => 2) (fun _ => Nat.two_pos) [9]

/-- A `send` that takes everything at once. -/
theorem sendAll_atOnce {call : Nat} {data : List UInt8} (hlen : data.length < 2 ^ 31) :
    ∃ next, sendAll (fun _ count => count) call data = some (data, next) := by
  by_cases hdata : data = []
  · rw [sendAll, if_pos hdata, hdata]
    exact ⟨call, rfl⟩
  · have hint : (BitVec.ofNat 32 data.length).toInt = data.length := by
      rw [BitVec.toInt_ofNat', Int.bmod_eq_of_le] <;> omega
    have hpos : ¬ (data.length : Int) ≤ 0 := by
      have := List.length_pos_iff.mpr hdata
      omega
    rw [sendAll, if_neg hdata]
    dsimp only
    rw [hint, if_neg hpos, Int.toNat_natCast, List.drop_length, List.take_length, sendAll,
      if_pos rfl, Option.map_some, List.append_nil]
    exact ⟨call + 1, rfl⟩

/-- A payload of 64 MiB is sent, and its header is refused. -/
theorem long_payload_not_received :
    ¬ ∀ (send : Nat → Int → Int) (header : NetMessageHeader) (payload : Payload)
      (wire : List UInt8), netSendMessage send header payload = some wire →
        ∀ recv : Nat → Nat, (∀ call, 0 < recv call) → ∀ rest, ∃ received,
          netRecvMessage recv (wire ++ rest) = some (received, payload.data, rest) ∧
            received.type = header.type := by
  intro h
  obtain ⟨data, hlen⟩ : ∃ data : List UInt8, data.length = 67108864 :=
    ⟨List.replicate 67108864 0, List.length_replicate⟩
  let header := (netMsgBuilderCreate 0).header
  let wire := (sentHeader header (.bytes data)).bytes ++ data
  have hsend : netSendMessage (fun _ count => count) header (.bytes data) = some wire := by
    obtain ⟨call, hheader⟩ := @sendAll_atOnce 0 (sentHeader header (.bytes data)).bytes
      (by rw [length_headerBytes]; decide)
    obtain ⟨next, hbody⟩ := @sendAll_atOnce call data (by rw [hlen]; decide)
    rw [netSendMessage, hheader, Option.bind_eq_bind, Option.bind_some]
    dsimp only
    rw [if_pos (by rw [hlen]; decide), hbody]
    rfl
  obtain ⟨received, hreceived, _⟩ := h _ header (.bytes data) wire hsend (fun _ => 1)
    (fun _ => Nat.one_pos) []
  rw [List.append_assoc, netRecvMessage_eq_some_iff fun _ => Nat.one_pos] at hreceived
  have hshort := ((validate_sentHeader_iff header (.bytes data)).mp hreceived.2.1).2
  rw [Payload.length, hlen] at hshort
  exact absurd hshort (by decide)

end Network
end InventixDB
