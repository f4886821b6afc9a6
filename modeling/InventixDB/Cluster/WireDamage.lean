import InventixDB.Cluster.Wire
import InventixDB.Lib.Crc

/-!
# WireDamage — payloads that arrive damaged

The checksum of a message is a cyclic redundancy check over a register of 32 bits, taken a byte at a
time through the table of `init_crc32_table`.  A payload that was damaged in one stretch of at most
32 bits is not accepted.
-/

namespace InventixDB
namespace Cluster

open Lib
open Lib.ByteCodec

/-! ## The checksum as a register -/

/-- The polynomial of `init_crc32_table`. -/
def crc32Polynomial : BitVec 32 := 0xEDB88320

theorem getLsbD_crc32Polynomial : crc32Polynomial.getLsbD (32 - 1) = true := by
  decide

/-- The bits of the bytes, the lowest bit of each first. -/
def wireBits (bytes : List UInt8) : List Bool :=
  (bytes.map UInt8.toBitVec).flatMap Crc.byteBits

theorem getLsbD_zero_iff (crc : UInt32) : crc &&& 1 = 1 ↔ crc.toBitVec.getLsbD 0 = true := by
  have hbit : (crc &&& 1).toBitVec =
      BitVec.setWidth 32 (BitVec.ofBool (crc.toBitVec.getLsbD 0)) := by
    rw [UInt32.toBitVec_and]
    exact BitVec.and_one_eq_setWidth_ofBool_getLsbD
  rw [← UInt32.toBitVec_inj, hbit]
  cases crc.toBitVec.getLsbD 0 with
  | false => simp
  | true => simp

/-- One step of the inner loop of `init_crc32_table`. -/
theorem toBitVec_shift (crc : UInt32) :
    ((crc >>> 1) ^^^ (if crc &&& 1 = 1 then 0xEDB88320 else 0)).toBitVec =
      Crc.shift crc32Polynomial crc.toBitVec := by
  unfold Crc.shift
  by_cases hbit : crc.toBitVec.getLsbD 0 = true
  · rw [if_pos hbit, if_pos ((getLsbD_zero_iff crc).mpr hbit)]
    rfl
  · rw [if_neg hbit, if_neg (mt (getLsbD_zero_iff crc).mp hbit)]
    exact BitVec.xor_zero

theorem toBitVec_crc32Entry (i : UInt32) :
    (crc32Entry i).toBitVec = Crc.shifts crc32Polynomial 8 i.toBitVec := by
  have hfold : ∀ (steps : List Nat) (crc : UInt32),
      (steps.foldl
          (fun (crc : UInt32) _ => (crc >>> 1) ^^^ (if crc &&& 1 = 1 then 0xEDB88320 else 0))
          crc).toBitVec =
        Crc.shifts crc32Polynomial steps.length crc.toBitVec := by
    intro steps
    induction steps with
    | nil => exact fun _ => rfl
    | cons step steps ih =>
        intro crc
        rw [List.foldl_cons, ih, toBitVec_shift]
        rfl
  exact hfold (List.range 8) i

theorem toBitVec_crc32Step (crc : UInt32) (byte : UInt8) :
    (crc32Step crc byte).toBitVec =
      Crc.tableStep crc32Polynomial crc.toBitVec byte.toBitVec := by
  unfold crc32Step Crc.tableStep
  rw [UInt32.toBitVec_xor, toBitVec_crc32Entry]
  rfl

/-- The table leaves what the bits, one after another, leave. -/
theorem toBitVec_clusterCrc32 (data : List UInt8) :
    (clusterCrc32 data).toBitVec =
      Crc.run crc32Polynomial 0xFFFFFFFF (wireBits data) ^^^ 0xFFFFFFFF := by
  have hfold : ∀ crc : UInt32, (data.foldl crc32Step crc).toBitVec =
      (data.map UInt8.toBitVec).foldl (Crc.tableStep crc32Polynomial) crc.toBitVec := by
    induction data with
    | nil => exact fun _ => rfl
    | cons byte data ih =>
        intro crc
        rw [List.foldl_cons, ih, toBitVec_crc32Step, List.map_cons, List.foldl_cons]
  unfold clusterCrc32 wireBits
  rw [UInt32.toBitVec_xor, hfold, Crc.foldl_tableStep (by decide)]
  rfl

/-! ## Damage -/

theorem length_wireBits (bytes : List UInt8) : (wireBits bytes).length = 8 * bytes.length := by
  unfold wireBits
  induction bytes with
  | nil => rfl
  | cons byte bytes ih =>
      rw [List.map_cons, List.flatMap_cons, List.length_append, ih, Crc.length_byteBits,
        List.length_cons]
      omega

theorem byteBits_injective : Function.Injective fun byte : UInt8 => Crc.byteBits byte.toBitVec := by
  intro a b hab
  refine UInt8.toBitVec_inj.mp (BitVec.eq_of_getLsbD_eq fun i hi => ?_)
  have hbit := congrArg (·[i]?) hab
  simpa [Crc.byteBits, hi] using hbit

theorem wireBits_injective : Function.Injective wireBits := by
  intro a b hab
  induction a generalizing b with
  | nil =>
      have hlen := congrArg List.length hab
      rw [length_wireBits, length_wireBits, List.length_nil] at hlen
      exact (List.length_eq_zero_iff.mp (by omega)).symm
  | cons byte a ih =>
      cases b with
      | nil =>
          have hlen := congrArg List.length hab
          rw [length_wireBits, length_wireBits, List.length_cons, List.length_nil] at hlen
          omega
      | cons byte' b =>
          have hsplit : Crc.byteBits byte.toBitVec ++ wireBits a =
              Crc.byteBits byte'.toBitVec ++ wireBits b := hab
          obtain ⟨hbyte, hrest⟩ := List.append_inj hsplit
            (by rw [Crc.length_byteBits, Crc.length_byteBits])
          rw [byteBits_injective hbyte, ih hrest]

variable {sent received : List UInt8} {before xs ys after : List Bool}

/-- The checksum tells apart two payloads that differ in one stretch of at most 32 bits. -/
theorem clusterCrc32_eq_iff (hsent : wireBits sent = before ++ xs ++ after)
    (hreceived : wireBits received = before ++ ys ++ after) (hbits : xs.length = ys.length)
    (hburst : xs.length ≤ 32) : clusterCrc32 received = clusterCrc32 sent ↔ received = sent := by
  have hrun := Crc.run_burst_iff getLsbD_crc32Polynomial 0xFFFFFFFF before after hbits hburst
  constructor
  · intro heq
    have hcrc := congrArg UInt32.toBitVec heq
    rw [toBitVec_clusterCrc32, toBitVec_clusterCrc32, BitVec.xor_left_inj, hsent, hreceived]
      at hcrc
    refine wireBits_injective ?_
    rw [hsent, hreceived, hrun.mp hcrc.symm]
  · rintro rfl
    rfl

/-- A payload with one damaged stretch of at most 32 bits is accepted only if nothing changed. -/
theorem netReceiveMessage_damaged {header : ClusterMessageHeader} (rest : List UInt8)
    (hmagic : header.magic = clusterMagic) (hpos : sent ≠ [])
    (hlen : header.payloadLen.toNat = sent.length)
    (hsent : wireBits sent = before ++ xs ++ after)
    (hreceived : wireBits received = before ++ ys ++ after) (hbits : xs.length = ys.length)
    (hburst : xs.length ≤ 32) :
    clusterSendMessage header sent = (header.withChecksum (clusterCrc32 sent)).bytes ++ sent ∧
      netReceiveMessage
          ((header.withChecksum (clusterCrc32 sent)).bytes ++ (received ++ rest)) =
        if received = sent then some (header.withChecksum (clusterCrc32 sent), sent) else none := by
  have hsentpos : 0 < sent.length := List.length_pos_iff.mpr hpos
  -- the length in the header fits what arrives, so it comes to the checksum
  have hsame : received.length = sent.length := by
    have hsize := congrArg List.length hsent
    have hsize' := congrArg List.length hreceived
    simp only [length_wireBits, List.length_append] at hsize hsize'
    omega
  constructor
  · unfold clusterSendMessage
    rw [if_pos (by omega), hlen, List.take_length]
  · have hlen' : (header.withChecksum (clusterCrc32 sent)).payloadLen.toNat = received.length :=
      hlen.trans hsame.symm
    have hmagic' : (header.withChecksum (clusterCrc32 sent)).magic = clusterMagic := hmagic
    have hread := readExact_append received rest
    rw [← hlen'] at hread
    unfold netReceiveMessage
    rw [readHeader_bytes, Option.bind_eq_bind, Option.bind_some]
    dsimp only
    rw [if_neg (not_not_intro hmagic'), if_pos (by omega), hread]
    by_cases heq : received = sent
    · subst heq
      rw [if_pos rfl]
      exact if_pos rfl
    · rw [if_neg heq]
      exact if_neg (mt (clusterCrc32_eq_iff hsent hreceived hbits hburst).mp heq)

/-- A header for a payload of one byte. -/
def oneByteHeader : ClusterMessageHeader where
  magic := clusterMagic
  version := protocolVersion
  type := msgReplicateData
  senderId := 1
  receiverId := 2
  term := 1
  payloadLen := 1
  checksum := 0

theorem netReceiveMessage_flippedBit :
    netReceiveMessage ((oneByteHeader.withChecksum (clusterCrc32 [1])).bytes ++ ([0] ++ [])) =
      none := by
  have hdamaged := @netReceiveMessage_damaged [1] [0] [] [true] [false] (List.replicate 7 false)
    oneByteHeader [] rfl (by decide) rfl (by decide) (by decide) rfl (by decide)
  rw [hdamaged.2]
  exact if_neg (by decide)

end Cluster
end InventixDB
