import InventixDB.Server.Distribution

/-!
# Broadcast — the answers of all workers in one buffer

A statement without a worker of its own goes to every worker.  Their answers are put one behind the
other into 16384 bytes, and an answer that does not fit is passed over.
-/

namespace InventixDB
namespace Server

open Storage

/-! ## One worker -/

structure WorkerNode where
  ip : CStr
  port : Int32

/-- What becomes of sending a query to a worker. -/
inductive Exchange
  | noConnection
  | sendFails
  | receiveFails
  | received (type : UInt8) (payload : List UInt8)

/-- `sizeof(NetQueryResult)`; its last four bytes are `result_len`. -/
def queryResultSize : Nat := 16

/-- The text made of a message; `none` where `result_len` goes past the payload. -/
def messageText (type : UInt8) (payload : List UInt8) : Option CStr :=
  if type = 0x02 ∧ queryResultSize ≤ payload.length then
    let resultLen := Lib.ByteCodec.leNat ((payload.drop 12).take 4)
    if 0 < resultLen then
      if queryResultSize + resultLen ≤ payload.length then
        some (CStr.ofBytes ((payload.drop queryResultSize).take resultLen))
      else none
    else some (CStr.lit "OK\n")
  else if type = 0x03 then some (CStr.lit "Error: " ++ CStr.ofBytes payload ++ CStr.lit "\n")
  else some (CStr.lit "Error: Unexpected response type\n")

/-- `send_to_worker`, in the binary protocol; `workers` are those of `g_workers` that are set. -/
def sendToWorker (workerCount : Nat) (workers : List WorkerNode) (exchange : Nat → Exchange)
    (workerIdx : Nat) : Option CStr :=
  if workerCount ≤ workerIdx then some (CStr.lit "Error: Invalid worker index\n")
  else
    (workers[workerIdx]?).bind fun worker =>
      match exchange workerIdx with
      | .noConnection =>
          some (CStr.snprintf 128 (CStr.lit "Error: Cannot connect to worker " ++
            CStr.ofInt workerIdx ++ CStr.lit " (" ++ worker.ip ++ CStr.lit ":" ++
            CStr.ofInt worker.port.toInt ++ CStr.lit ")\n"))
      | .sendFails => some (CStr.lit "Error: Failed to send query to worker\n")
      | .receiveFails => some (CStr.lit "Error: Failed to receive response from worker\n")
      | .received type payload => messageText type payload

/-! ## All workers -/

/-- The result buffer and the offset up to which it is filled. -/
structure ResultBuffer where
  result : CStr
  offset : Nat

/-- One round of the loop over the workers. -/
def ResultBuffer.append (buffer : ResultBuffer) (part : CStr) : ResultBuffer :=
  if buffer.offset + part.length < 16380 then
    { result := buffer.result ++ part ++ CStr.lit "\n"
      offset := buffer.offset + part.length + 1 }
  else buffer

def ResultBuffer.empty : ResultBuffer where
  result := CStr.lit ""
  offset := 0

/-- The scatter-gather of `dist_route_query`. -/
def gather (parts : List CStr) : CStr :=
  (parts.foldl ResultBuffer.append .empty).result

/-- What `dist_route_query` returns, and its counter; `send` is `send_to_worker` of the query. -/
def distRouteAnswer (send : Nat → Option CStr) (workerCount rr : Nat) (node : Sql.ASTNode) :
    Option (CStr × Nat) := do
  let (route, rr) ← distRouteQuery workerCount rr node
  match route with
  | .worker target => return (← send target, rr)
  | .broadcast => return (gather (← (List.range workerCount).mapM send), rr)

/-! ## Nothing is written past the buffer -/

/-- The offset is the end of the text, and text and newline end before the buffer does. -/
structure ResultBuffer.Valid (buffer : ResultBuffer) : Prop where
  offset : buffer.offset = buffer.result.length
  room : buffer.result.length < 16384

theorem ResultBuffer.Valid.append {buffer : ResultBuffer} (hvalid : buffer.Valid) (part : CStr) :
    (buffer.append part).Valid := by
  unfold ResultBuffer.append
  split
  · next hroom =>
      have hlen : (buffer.result ++ part ++ CStr.lit "\n").length =
          buffer.result.length + part.length + 1 := by
        simp only [CStr.length, CStr.val_append, List.length_append]
        rfl
      have hoffset := hvalid.offset
      refine ⟨by rw [hlen, hoffset], ?_⟩
      rw [hlen]
      omega
  · exact hvalid

/-! ## When nothing is lost -/

/-- Every part, each with a newline behind it. -/
def joined : List CStr → CStr
  | [] => CStr.lit ""
  | part :: parts => part ++ CStr.lit "\n" ++ joined parts

/-- Each part, behind the ones before it and their newlines, ends before byte 16380. -/
def PartsFit : Nat → List CStr → Prop
  | _, [] => True
  | offset, part :: parts =>
      offset + part.length < 16380 ∧ PartsFit (offset + part.length + 1) parts

theorem length_foldl_append_le (parts : List CStr) (buffer : ResultBuffer) :
    (parts.foldl ResultBuffer.append buffer).result.length ≤
      buffer.result.length + (joined parts).length := by
  induction parts generalizing buffer with
  | nil => exact Nat.le_add_right _ _
  | cons part parts ih =>
      have hrest := ih (buffer.append part)
      have hlen : (joined (part :: parts)).length = part.length + 1 + (joined parts).length := by
        simp only [joined, CStr.length, CStr.val_append, List.length_append]
        rfl
      have hone : (buffer.append part).result.length ≤ buffer.result.length + part.length + 1 := by
        unfold ResultBuffer.append
        split
        · simp only [CStr.length, CStr.val_append, List.length_append]
          exact Nat.le_refl _
        · omega
      rw [List.foldl_cons, hlen]
      omega

/-- A part that is passed over is missing from the length of the text. -/
theorem foldl_append_eq_iff (parts : List CStr) (buffer : ResultBuffer) :
    (parts.foldl ResultBuffer.append buffer).result.val = buffer.result.val ++ (joined parts).val ↔
      PartsFit buffer.offset parts := by
  induction parts generalizing buffer with
  | nil =>
      refine iff_of_true ?_ trivial
      exact (List.append_nil _).symm
  | cons part parts ih =>
      rw [List.foldl_cons, PartsFit]
      by_cases hroom : buffer.offset + part.length < 16380
      · have happend : buffer.append part =
            { result := buffer.result ++ part ++ CStr.lit "\n"
              offset := buffer.offset + part.length + 1 } := if_pos hroom
        have hjoined : buffer.result.val ++ (joined (part :: parts)).val =
            (buffer.append part).result.val ++ (joined parts).val := by
          rw [happend]
          simp only [joined, CStr.val_append, List.append_assoc]
        rw [hjoined, ih (buffer.append part), happend]
        exact (and_iff_right hroom).symm
      · have happend : buffer.append part = buffer := if_neg hroom
        have hlen := length_foldl_append_le parts buffer
        refine iff_of_false (fun heq => ?_) (fun hfit => hroom hfit.1)
        rw [happend] at heq
        have hlen' := congrArg List.length heq
        simp only [joined, CStr.length, CStr.val_append, List.length_append] at hlen hlen'
        have hnewline : (CStr.lit "\n").val.length = 1 := by decide
        omega

theorem gather_eq_joined_iff (parts : List CStr) :
    gather parts = joined parts ↔ PartsFit 0 parts := by
  have hiff := foldl_append_eq_iff parts .empty
  have hempty : ResultBuffer.empty.result.val = [] := by decide
  rw [hempty, List.nil_append] at hiff
  exact Subtype.ext_iff.trans hiff

/-- The answer to a broadcast statement is all that the workers answer just when it all fits. -/
theorem broadcast_answer_iff {send : Nat → Option CStr} {workerCount rr rr' : Nat}
    {node : Sql.ASTNode} {parts : List CStr}
    (hroute : distRouteQuery workerCount rr node = some (.broadcast, rr'))
    (hparts : (List.range workerCount).mapM send = some parts) :
    distRouteAnswer send workerCount rr node = some (joined parts, rr') ↔ PartsFit 0 parts := by
  have hanswer : distRouteAnswer send workerCount rr node = some (gather parts, rr') := by
    unfold distRouteAnswer
    rw [hroute]
    change ((List.range workerCount).mapM send).bind _ = _
    rw [hparts]
    rfl
  rw [hanswer, ← gather_eq_joined_iff, Option.some_inj, Prod.mk.injEq]
  exact and_iff_left rfl

/-- `SHOW TABLES` on two workers, of which the second cannot be reached. -/
theorem broadcast_answer_twoWorkers :
    distRouteAnswer (fun i => if i = 0 then some (CStr.lit "t\n") else some (CStr.lit "Error\n"))
      2 0 .showTables = some (joined [CStr.lit "t\n", CStr.lit "Error\n"], 0) :=
  (broadcast_answer_iff rfl rfl).mpr ⟨by decide, by decide, trivial⟩

/-- A single answer of 16380 bytes is lost. -/
theorem long_answer_is_lost :
    ¬ ∀ (send : Nat → Option CStr) (workerCount rr rr' : Nat) (node : Sql.ASTNode)
      (parts : List CStr), distRouteQuery workerCount rr node = some (.broadcast, rr') →
      (List.range workerCount).mapM send = some parts →
      distRouteAnswer send workerCount rr node = some (joined parts, rr') := by
  intro hall
  obtain ⟨part, hpart⟩ : ∃ part : CStr, part.length = 16380 :=
    ⟨⟨List.replicate 16380 65, fun h => absurd (List.eq_of_mem_replicate h) (by decide)⟩,
      List.length_replicate⟩
  have hanswer := hall (fun _ => some part) 1 0 0 .showTables [part] rfl rfl
  have hgather : gather [part] = joined [part] := congrArg Prod.fst (Option.some_inj.mp hanswer)
  have hfit := ((gather_eq_joined_iff [part]).mp hgather).1
  omega

end Server
end InventixDB
