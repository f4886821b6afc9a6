import InventixDB.Lib.ByteCodec
import InventixDB.Lib.Framing

/-!
# AsyncReads — messages put together from read completions

A completion adds its bytes to the receive buffer, hands every whole message to `on_message` and
posts a read for the space behind what is left.  The buffer never grows: a message longer than it
fills it up, and the next read is posted for no bytes.
-/

namespace InventixDB
namespace Network

open Lib
open Lib.ByteCodec
open Lib.Framing

/-! ## Headers -/

structure NetMessageHeader where
  magic : UInt32
  version : UInt16
  type : UInt8
  flags : UInt8
  sequence : UInt32
  payloadLen : UInt32
  deriving DecidableEq

/-- `NET_MAGIC`, `NET_MAX_MESSAGE_SIZE`, `NET_HEADER_SIZE`, `NET_RECV_BUFFER_SIZE`,
`MSG_TYPE_MAX` -/
def netMagic : UInt32 := 0x494E5658
def netMaxMessageSize : Nat := 64 * 1024 * 1024
def netHeaderSize : Nat := 16
def netRecvBufferSize : Nat := 64 * 1024
def msgTypeMax : UInt8 := 0xFF

def NetMessageHeader.bytes (header : NetMessageHeader) : List UInt8 :=
  leBytes 4 header.magic.toNat ++ leBytes 2 header.version.toNat ++ leBytes 1 header.type.toNat ++
    leBytes 1 header.flags.toNat ++ leBytes 4 header.sequence.toNat ++
    leBytes 4 header.payloadLen.toNat

/-- The packed structure at the front of `data`. -/
def copyHeader (data : List UInt8) : Option NetMessageHeader := do
  let (magic, data) ← readLE 4 data
  let (version, data) ← readLE 2 data
  let (type, data) ← readLE 1 data
  let (flags, data) ← readLE 1 data
  let (sequence, data) ← readLE 4 data
  let (payloadLen, _) ← readLE 4 data
  some
    { magic := UInt32.ofNat magic
      version := UInt16.ofNat version
      type := UInt8.ofNat type
      flags := UInt8.ofNat flags
      sequence := UInt32.ofNat sequence
      payloadLen := UInt32.ofNat payloadLen }

def netMsgParseHeader (data : List UInt8) : Option NetMessageHeader :=
  if data.length < netHeaderSize then none
  else (copyHeader data).filter fun header => header.magic = netMagic

def netMsgValidateHeader (header : NetMessageHeader) : Bool :=
  if header.magic ≠ netMagic then false
  else if header.type ≥ msgTypeMax then false
  else if header.payloadLen.toNat > netMaxMessageSize - netHeaderSize then false
  else true

theorem magic_of_validate {header : NetMessageHeader} (hvalid : netMsgValidateHeader header) :
    header.magic = netMagic := by
  by_contra hne
  rw [netMsgValidateHeader, if_pos hne] at hvalid
  cases hvalid

theorem length_headerBytes (header : NetMessageHeader) : header.bytes.length = netHeaderSize := by
  simp [NetMessageHeader.bytes, netHeaderSize]

theorem copyHeader_bytes (header : NetMessageHeader) (rest : List UInt8) :
    copyHeader (header.bytes ++ rest) = some header := by
  have h8 : ∀ n : UInt8, n.toNat < 256 ^ 1 := fun n => n.toNat_lt
  have h16 : ∀ n : UInt16, n.toNat < 256 ^ 2 := fun n => n.toNat_lt
  have h32 : ∀ n : UInt32, n.toNat < 256 ^ 4 := fun n => n.toNat_lt
  simp only [copyHeader, NetMessageHeader.bytes, List.append_assoc, Option.bind_eq_bind,
    readLE_append (h32 _), readLE_append (h16 _), readLE_append (h8 _), Option.bind_some,
    UInt32.ofNat_toNat, UInt16.ofNat_toNat, UInt8.ofNat_toNat]

theorem netMsgParseHeader_bytes {header : NetMessageHeader} (hmagic : header.magic = netMagic)
    (rest : List UInt8) : netMsgParseHeader (header.bytes ++ rest) = some header := by
  have hlen : ¬ (header.bytes ++ rest).length < netHeaderSize := by
    rw [List.length_append, length_headerBytes]
    exact Nat.not_lt.mpr (Nat.le_add_right _ _)
  rw [netMsgParseHeader, if_neg hlen, copyHeader_bytes, Option.filter_some,
    if_pos (decide_eq_true hmagic)]

/-! ## Messages -/

/-- A header and the payload it announces. -/
structure NetMessage where
  header : NetMessageHeader
  payload : List UInt8
  length : payload.length = header.payloadLen.toNat

def NetMessage.bytes (m : NetMessage) : List UInt8 :=
  m.header.bytes ++ m.payload

theorem NetMessage.length_bytes (m : NetMessage) :
    m.bytes.length = netHeaderSize + m.payload.length := by
  rw [NetMessage.bytes, List.length_append, length_headerBytes]

/-- The loop of `handle_read_completion`: the headers and payloads given to `on_message`, and the
buffer it leaves. -/
def receiveLoop : Nat → List UInt8 → Taken UInt8 (NetMessageHeader × List UInt8)
  | 0, buffer => { messages := [], rest := buffer, valid := true }
  | fuel + 1, buffer =>
      if buffer.length < netHeaderSize then { messages := [], rest := buffer, valid := true }
      else
        match netMsgParseHeader buffer with
        | none => { messages := [], rest := buffer, valid := false }
        | some header =>
            let totalMsgSize := netHeaderSize + header.payloadLen.toNat
            if buffer.length < totalMsgSize then
              { messages := [], rest := buffer, valid := true }
            else
              let payload := (buffer.drop netHeaderSize).take header.payloadLen.toNat
              let taken := receiveLoop fuel (buffer.drop totalMsgSize)
              { taken with messages := (header, payload) :: taken.messages }

/-- What the loop finds at the front of the buffer. -/
def messageFront (buffer : List UInt8) : Front (NetMessageHeader × List UInt8) :=
  if buffer.length < netHeaderSize then .incomplete
  else
    match netMsgParseHeader buffer with
    | none => .invalid
    | some header =>
        if buffer.length < netHeaderSize + header.payloadLen.toNat then .incomplete
        else
          .whole (header, (buffer.drop netHeaderSize).take header.payloadLen.toNat)
            (netHeaderSize + header.payloadLen.toNat)

theorem receiveLoop_eq (fuel : Nat) (buffer : List UInt8) :
    receiveLoop fuel buffer = takeAll messageFront fuel buffer := by
  induction fuel generalizing buffer with
  | zero => rfl
  | succ fuel ih =>
      rw [receiveLoop, takeAll, messageFront]
      split
      · rfl
      · cases netMsgParseHeader buffer with
        | none => rfl
        | some header =>
            dsimp only
            split
            · rfl
            · rw [ih]

/-- What `on_message` gets of a message. -/
def NetMessage.seen (m : NetMessage) : NetMessageHeader × List UInt8 :=
  (m.header, m.payload)

/-- A message with the right magic number is read off the front. -/
theorem reads_seen {m : NetMessage} (hmagic : m.header.magic = netMagic) :
    Reads messageFront NetMessage.bytes NetMessage.seen m where
  nonempty := by
    refine List.ne_nil_of_length_pos ?_
    rw [m.length_bytes]
    exact Nat.lt_of_lt_of_le (by decide) (Nat.le_add_right _ _)
  whole := by
    intro rest
    have hparse := netMsgParseHeader_bytes hmagic (m.payload ++ rest)
    have hsize := length_headerBytes m.header
    have hlen := m.length
    rw [m.length_bytes, hlen, messageFront, NetMessage.bytes, List.append_assoc, hparse, if_neg]
    · dsimp only
      rw [if_neg]
      · rw [List.drop_left' hsize, ← hlen, List.take_left]
        rfl
      · simp only [List.length_append]
        omega
    · simp only [List.length_append]
      omega
  part := by
    intro part hpart hlt
    rw [messageFront]
    split
    · rfl
    · rename_i hlong
      have hsize := length_headerBytes m.header
      have hhead := List.prefix_of_prefix_length_le (List.prefix_append m.header.bytes m.payload)
        hpart (by omega)
      obtain ⟨rest, rfl⟩ := hhead
      rw [netMsgParseHeader_bytes hmagic]
      dsimp only
      rw [m.length_bytes, m.length] at hlt
      rw [if_pos hlt]

/-! ## Completions -/

inductive NetConnState where
  | disconnected
  | connecting
  | connected
  | authenticated
  | closing
  | error
  deriving DecidableEq

/-- The first `recv_buffer_used` bytes of the receive buffer are `recvBuffer`. -/
structure NetConnection where
  state : NetConnState
  recvBuffer : List UInt8
  recvBufferSize : Nat

/-- What the server is told. -/
inductive ServerCall where
  | onMessage (header : NetMessageHeader) (payload : List UInt8)
  | onError
  | onDisconnect
  deriving DecidableEq

def NetMessage.call (m : NetMessage) : ServerCall :=
  .onMessage m.header m.payload

/-- A connection with the calls made for it and the space of the read that is posted. -/
structure NetReader where
  conn : NetConnection
  calls : List ServerCall
  posted : Option Nat

/-- The space `post_read` offers. -/
def postRead (conn : NetConnection) : Nat :=
  conn.recvBufferSize - conn.recvBuffer.length

def handleReadCompletion (r : NetReader) (bytes : List UInt8) : NetReader :=
  if bytes.length = 0 then
    { conn := { r.conn with state := .disconnected }
      calls := r.calls ++ [.onDisconnect]
      posted := none }
  else
    let buffer := r.conn.recvBuffer ++ bytes
    let taken := receiveLoop buffer.length buffer
    let calls := r.calls ++ taken.messages.map fun m => .onMessage m.1 m.2
    if taken.valid then
      let conn := { r.conn with recvBuffer := taken.rest }
      { conn := conn, calls := calls, posted := some (postRead conn) }
    else
      { conn := { r.conn with state := .error, recvBuffer := taken.rest }
        calls := calls ++ [.onError]
        posted := none }

/-- A reader with the bytes of the stream that have not arrived. -/
structure AsyncRead where
  reader : NetReader
  outstanding : List UInt8

namespace AsyncRead

/-- The next `n` bytes arrive, if they fit the read that is posted. -/
def step (r : AsyncRead) (n : Nat) : Option AsyncRead :=
  match r.reader.posted with
  | none => none
  | some space =>
      if 0 < n ∧ n ≤ space ∧ n ≤ r.outstanding.length then
        some
          { reader := handleReadCompletion r.reader (r.outstanding.take n)
            outstanding := r.outstanding.drop n }
      else none

/-- A connection accepted, with its first read posted. -/
def accepted (msgs : List NetMessage) : AsyncRead :=
  let conn : NetConnection :=
    { state := .connected, recvBuffer := [], recvBufferSize := netRecvBufferSize }
  { reader := { conn := conn, calls := [], posted := some (postRead conn) }
    outstanding := msgs.flatMap NetMessage.bytes }

/-- The calls are the messages that have arrived whole, and while others are to come a read is
posted with room. -/
def Delivered (msgs : List NetMessage) (r : AsyncRead) : Prop :=
  ∃ done todo part, msgs = done ++ todo ∧ r.reader.calls = done.map NetMessage.call ∧
    Arriving NetMessage.bytes todo part ∧ part ++ r.outstanding = todo.flatMap NetMessage.bytes ∧
    (todo ≠ [] → ∃ space ∈ r.reader.posted, 0 < space)

/-- Every way to cut the stream delivers the messages. -/
def DeliversAll (msgs : List NetMessage) : Prop :=
  ∀ (cuts : List Nat) after, cuts.foldlM step (accepted msgs) = some after → Delivered msgs after

/-! ## What the buffer holds -/

/-- The buffer holds what has arrived of the messages to come, and those handed on fitted it. -/
structure Tracks (msgs done todo : List NetMessage) (r : AsyncRead) : Prop where
  messages : msgs = done ++ todo
  calls : r.reader.calls = done.map NetMessage.call
  arriving : Arriving NetMessage.bytes todo r.reader.conn.recvBuffer
  outstanding : r.reader.conn.recvBuffer ++ r.outstanding = todo.flatMap NetMessage.bytes
  posted : r.reader.posted = some (postRead r.reader.conn)
  size : r.reader.conn.recvBufferSize = netRecvBufferSize
  fitted : ∀ m ∈ done, netHeaderSize + m.payload.length ≤ netRecvBufferSize

variable {msgs done todo : List NetMessage} {r after : AsyncRead}

theorem tracks_accepted (msgs : List NetMessage) : Tracks msgs [] msgs (accepted msgs) where
  messages := rfl
  calls := rfl
  arriving := by
    cases msgs with
    | nil => rfl
    | cons m msgs =>
        have hpos : 0 < netHeaderSize + m.payload.length :=
          Nat.lt_of_lt_of_le (by decide) (Nat.le_add_right _ _)
        rw [← m.length_bytes] at hpos
        exact ⟨List.nil_prefix, hpos⟩
  outstanding := rfl
  posted := rfl
  size := rfl
  fitted := by rintro m ⟨⟩

/-- The loop takes off what is whole of the buffer. -/
theorem receiveLoop_arrived (hmagic : ∀ m ∈ todo, m.header.magic = netMagic)
    {buffer : List UInt8} (hbuffer : buffer <+: todo.flatMap NetMessage.bytes) :
    ∃ done todo' rest, todo = done ++ todo' ∧ buffer = done.flatMap NetMessage.bytes ++ rest ∧
      Arriving NetMessage.bytes todo' rest ∧
      receiveLoop buffer.length buffer =
        { messages := done.map NetMessage.seen, rest := rest, valid := true } := by
  rw [receiveLoop_eq]
  exact takeAll_arrived rfl (fun m hm => reads_seen (hmagic m hm)) hbuffer (Nat.le_refl _)

/-- A completion that fits keeps track, and reads on. -/
theorem Tracks.step (ht : Tracks msgs done todo r) (hmagic : ∀ m ∈ msgs, m.header.magic = netMagic)
    {n : Nat} (hstep : r.step n = some after) :
    ∃ done' todo', Tracks msgs done' todo' after ∧
      after.outstanding.length < r.outstanding.length := by
  rw [AsyncRead.step, ht.posted] at hstep
  dsimp only at hstep
  rw [Option.ite_none_right_eq_some] at hstep
  obtain ⟨⟨hpos, hspace, hlen⟩, hstep⟩ := hstep
  cases hstep
  rw [postRead, ht.size] at hspace
  have htake : (r.outstanding.take n).length = n := List.length_take_of_le hlen
  have hbuffer : r.reader.conn.recvBuffer ++ r.outstanding.take n <+:
      todo.flatMap NetMessage.bytes := by
    rw [← ht.outstanding]
    exact (List.prefix_append_right_inj _).mpr (List.take_prefix n _)
  have hmagic' : ∀ m ∈ todo, m.header.magic = netMagic := by
    intro m hm
    rw [ht.messages] at hmagic
    exact hmagic m (List.mem_append_right _ hm)
  obtain ⟨whole, todo', rest, rfl, hsplit, harr, hloop⟩ := receiveLoop_arrived hmagic' hbuffer
  have hhandle : handleReadCompletion r.reader (r.outstanding.take n) =
      { conn := { r.reader.conn with recvBuffer := rest }
        calls := (done ++ whole).map NetMessage.call
        posted := some (postRead { r.reader.conn with recvBuffer := rest }) } := by
    have hne : ¬ (r.outstanding.take n).length = 0 := by omega
    rw [handleReadCompletion, if_neg hne]
    dsimp only
    rw [hloop, if_pos rfl, ht.calls, List.map_map, List.map_append]
    rfl
  rw [hhandle]
  refine ⟨done ++ whole, todo', ⟨?_, rfl, harr, ?_, rfl, ht.size, ?_⟩, ?_⟩
  · rw [ht.messages, List.append_assoc]
  · dsimp only
    have hall := ht.outstanding
    rw [← List.take_append_drop n r.outstanding, ← List.append_assoc, hsplit, List.flatMap_append,
      List.append_assoc] at hall
    exact List.append_cancel_left hall
  · refine List.forall_mem_append.mpr ⟨ht.fitted, fun m hm => ?_⟩
    -- What is handed on was whole in the buffer.
    have hmem := @List.mem_map_of_mem _ _ _ _ NetMessage.bytes hm
    have hsub := (List.sublist_flatten_of_mem hmem).length_le
    rw [← List.flatMap_def, m.length_bytes] at hsub
    have hsize := congrArg List.length hsplit
    rw [List.length_append, List.length_append, htake] at hsize
    omega
  · dsimp only
    rw [List.length_drop]
    omega

theorem Tracks.run (hmagic : ∀ m ∈ msgs, m.header.magic = netMagic) {cuts : List Nat}
    (ht : Tracks msgs done todo r) (hrun : cuts.foldlM AsyncRead.step r = some after) :
    ∃ done' todo', Tracks msgs done' todo' after := by
  induction cuts generalizing r done todo with
  | nil =>
      cases hrun
      exact ⟨done, todo, ht⟩
  | cons n cuts ih =>
      rw [List.foldlM_cons] at hrun
      obtain ⟨next, hnext, hrest⟩ := Option.bind_eq_some_iff.mp hrun
      obtain ⟨done', todo', ht', -⟩ := ht.step hmagic hnext
      exact ih ht' hrest

/-! ## Room for the next byte -/

/-- A buffer that holds the message in progress has room for the rest of it. -/
theorem Tracks.delivered (ht : Tracks msgs done todo r)
    (hfit : ∀ m ∈ msgs, netHeaderSize + m.payload.length ≤ netRecvBufferSize) :
    Delivered msgs r := by
  refine ⟨done, todo, r.reader.conn.recvBuffer, ht.messages, ht.calls, ht.arriving,
    ht.outstanding, fun htodo => ?_⟩
  refine ⟨_, ht.posted, ?_⟩
  cases todo with
  | nil => exact absurd rfl htodo
  | cons m todo =>
      have hm := hfit m (by
        rw [ht.messages]
        exact List.mem_append_right _ List.mem_cons_self)
      have hlt := ht.arriving.2
      rw [m.length_bytes] at hlt
      rw [postRead, ht.size]
      omega

/-- With room at every point the stream can be read to its end, byte by byte. -/
theorem Tracks.fits_of_room (hmagic : ∀ m ∈ msgs, m.header.magic = netMagic)
    (ht : Tracks msgs done todo r)
    (hroom : ∀ (cuts : List Nat) after, cuts.foldlM AsyncRead.step r = some after →
      Delivered msgs after) :
    ∀ m ∈ msgs, netHeaderSize + m.payload.length ≤ netRecvBufferSize := by
  induction hn : r.outstanding.length using Nat.strong_induction_on generalizing r done todo with
  | _ n ih =>
      subst hn
      by_cases htodo : todo = []
      · rw [ht.messages, htodo, List.append_nil]
        exact ht.fitted
      · have hlen := ht.arriving.length_lt htodo
        rw [← ht.outstanding, List.length_append] at hlen
        obtain ⟨done', todo', part, hmsgs, hcalls, harr, hout, hspace⟩ := hroom [] r rfl
        have htodo' : todo' ≠ [] := by
          rintro rfl
          have hnil := congrArg List.length hout
          rw [List.length_append] at hnil
          simp only [List.flatMap_nil, List.length_nil] at hnil
          omega
        obtain ⟨space, hposted, hpos⟩ := hspace htodo'
        have hstep : AsyncRead.step r 1 = some
            { reader := handleReadCompletion r.reader (r.outstanding.take 1)
              outstanding := r.outstanding.drop 1 } := by
          rw [AsyncRead.step, show r.reader.posted = some space from hposted]
          exact if_pos ⟨Nat.one_pos, hpos, by omega⟩
        obtain ⟨done', todo', ht', hless⟩ := ht.step hmagic hstep
        refine ih _ hless ht' (fun cuts after hrun => hroom (1 :: cuts) after ?_) rfl
        rw [List.foldlM_cons, hstep]
        exact hrun

/-- Messages that pass the checks are delivered however the stream is cut just when each of them
fits the receive buffer. -/
theorem deliversAll_iff (hvalid : ∀ m ∈ msgs, netMsgValidateHeader m.header) :
    DeliversAll msgs ↔ ∀ m ∈ msgs, netHeaderSize + m.payload.length ≤ netRecvBufferSize := by
  have hmagic : ∀ m ∈ msgs, m.header.magic = netMagic := fun m hm =>
    magic_of_validate (hvalid m hm)
  constructor
  · intro hall
    exact (tracks_accepted msgs).fits_of_room hmagic hall
  · intro hfit cuts after hrun
    obtain ⟨done, todo, ht⟩ := (tracks_accepted msgs).run hmagic hrun
    exact ht.delivered hfit

def pingMessage : NetMessage where
  header :=
    { magic := netMagic, version := 0x0100, type := 6, flags := 0, sequence := 1, payloadLen := 0 }
  payload := []
  length := rfl

def queryMessage : NetMessage where
  header :=
    { magic := netMagic, version := 0x0100, type := 1, flags := 0, sequence := 2, payloadLen := 3 }
  payload := [81, 49, 59]
  length := rfl

theorem deliversAll_ping_query : DeliversAll [pingMessage, queryMessage] :=
  (deliversAll_iff (by decide)).mpr (by decide)

/-- A payload one byte too long for the buffer. -/
def longMessage : NetMessage where
  header :=
    { magic := netMagic, version := 0x0100, type := 1, flags := 0, sequence := 1
      payloadLen := 65521 }
  payload := List.replicate 65521 0
  length := List.length_replicate

/-- The buffer is full before the message is whole. -/
theorem longMessage_stalls :
    netMsgValidateHeader longMessage.header ∧ ¬ DeliversAll [longMessage] := by
  refine ⟨by decide, fun hall => ?_⟩
  have hmagic : ∀ m ∈ [longMessage], m.header.magic = netMagic := by
    intro m hm
    rw [List.mem_singleton.mp hm]
    rfl
  have hfits := (tracks_accepted [longMessage]).fits_of_room hmagic hall longMessage
    List.mem_cons_self
  have hlen : longMessage.payload.length = 65521 := List.length_replicate
  rw [hlen] at hfits
  exact absurd hfits (by decide)

end AsyncRead
end Network
end InventixDB
