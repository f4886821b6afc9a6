import InventixDB.Lib.Bits
import InventixDB.Storage.LsmRefinement

/-!
# Bloom — Bloom filters as the bytes they are

`bloom_add` and `bloom_may_contain` on a filter of any size.  The filters of the tree have 1024
bytes; `Storage.bloomAdd` is what `bloom_add` does to those.
-/

namespace InventixDB
namespace Storage
namespace Bloom

open Lib

/-- The bytes of a filter of `size` bytes. -/
abbrev Bytes (size : UInt64) := { bs : List UInt8 // bs.length = size.toNat }

/-- The values the loops of 4 hash functions run through. -/
def hashNumbers : List UInt64 := [0, 1, 2, 3]

/-- `idx`; without bits the modulus is 0, and the remainder is undefined. -/
def hashIndex (size : UInt64) (key : CStr) (i : UInt64) : Option UInt64 :=
  let bits := size * 8
  let h1 := bloomHash1 key
  let h2 := bloomHash2 key
  if bits = 0 then none else some ((h1 + i * h2) % bits)

/-- `bloom_add`; `none` is undefined. -/
def bloomAdd (size : UInt64) (filter : List UInt8) (key : CStr) : Option (List UInt8) :=
  hashNumbers.foldlM
    (fun filter i => (hashIndex size key i).bind fun idx => setBit filter idx.toNat) filter

/-- The loop of `bloom_may_contain`, which a clear bit ends. -/
def probeBits (size : UInt64) (filter : List UInt8) (key : CStr) : List UInt64 → Option Bool
  | [] => some true
  | i :: rest =>
      match (hashIndex size key i).bind fun idx => bitAt filter idx.toNat with
      | none => none
      | some true => probeBits size filter key rest
      | some false => some false

/-- `bloom_may_contain`; `none` is undefined. -/
def bloomMayContain (size : UInt64) (filter : List UInt8) (key : CStr) : Option Bool :=
  probeBits size filter key hashNumbers

/-! ## The indices -/

/-- The bits a key stands for in a filter that has some. -/
def keyBits (size : UInt64) (key : CStr) : List Nat :=
  hashNumbers.map fun i => ((bloomHash1 key + i * bloomHash2 key) % (size * 8)).toNat

variable {size : UInt64} {filter after : List UInt8} {key : CStr}

theorem hashIndex_eq (hbits : size * 8 ≠ 0) (i : UInt64) :
    hashIndex size key i = some ((bloomHash1 key + i * bloomHash2 key) % (size * 8)) :=
  if_neg hbits

/-- The number of bits may wrap, but it never grows by that. -/
theorem mod_bits_lt (hbits : size * 8 ≠ 0) (h : UInt64) :
    (h % (size * 8)).toNat < size.toNat * 8 := by
  have hpos : 0 < (size * 8).toNat :=
    Nat.pos_of_ne_zero fun hzero => hbits (UInt64.toNat_inj.mp hzero)
  calc (h % (size * 8)).toNat = h.toNat % (size * 8).toNat := UInt64.toNat_mod h (size * 8)
    _ < (size * 8).toNat := Nat.mod_lt _ hpos
    _ = size.toNat * 8 % 2 ^ 64 := UInt64.toNat_mul size 8
    _ ≤ size.toNat * 8 := Nat.mod_le _ _

theorem keyBits_lt (key : CStr) (hbits : size * 8 ≠ 0) (hlen : filter.length = size.toNat) :
    ∀ i ∈ keyBits size key, i < filter.length * 8 := by
  intro i hi
  obtain ⟨n, -, rfl⟩ := List.mem_map.mp hi
  rw [hlen]
  exact mod_bits_lt hbits _

theorem bits_eq_zero_iff : size * 8 = 0 ↔ size.toNat % 2 ^ 61 = 0 := by
  rw [← UInt64.toNat_inj, UInt64.toNat_mul]
  change size.toNat * 8 % 2 ^ 64 = 0 ↔ size.toNat % 2 ^ 61 = 0
  omega

/-! ## What the two functions do where they are defined -/

theorem bloomAdd_eq (hbits : size * 8 ≠ 0) :
    bloomAdd size filter key = (keyBits size key).foldlM setBit filter := by
  simp only [bloomAdd, keyBits, List.foldlM_map, hashIndex_eq hbits, Option.bind_some]

theorem bloomMayContain_eq (hbits : size * 8 ≠ 0) :
    bloomMayContain size filter key = allSet filter (keyBits size key) := by
  have hprobe : ∀ numbers : List UInt64, probeBits size filter key numbers =
      allSet filter (numbers.map fun i =>
        ((bloomHash1 key + i * bloomHash2 key) % (size * 8)).toNat) := by
    intro numbers
    induction numbers with
    | nil => rfl
    | cons i numbers ih =>
        rw [List.map_cons, probeBits, hashIndex_eq hbits, Option.bind_some, ih]
        rfl
  exact hprobe hashNumbers

/-- All bits of the key are set. -/
def Knows (size : UInt64) (filter : List UInt8) (key : CStr) : Prop :=
  ∀ i ∈ keyBits size key, bitAt filter i = some true

instance : Decidable (Knows size filter key) :=
  inferInstanceAs (Decidable (∀ i ∈ keyBits size key, _))

theorem bloomMayContain_spec (hbits : size * 8 ≠ 0) (hlen : filter.length = size.toNat) :
    bloomMayContain size filter key = some (decide (Knows size filter key)) := by
  rw [bloomMayContain_eq hbits, allSet_eq (keyBits_lt key hbits hlen)]
  rfl

theorem bloomAdd_spec (key : CStr) (hbits : size * 8 ≠ 0) (hlen : filter.length = size.toNat) :
    ∃ after, bloomAdd size filter key = some after ∧ after.length = size.toNat ∧
      ∀ j, bitAt after j = (bitAt filter j).map (· || decide (j ∈ keyBits size key)) := by
  obtain ⟨after, hset⟩ := exists_setBits (keyBits_lt key hbits hlen)
  exact ⟨after, (bloomAdd_eq hbits).trans hset, (length_of_setBits hset).trans hlen,
    fun _ => bitAt_of_setBits hset⟩

/-! ## Added keys are found -/

theorem knows_of_add (hlen : filter.length = size.toNat) (hbits : size * 8 ≠ 0)
    (hadd : bloomAdd size filter key = some after) : Knows size after key := by
  obtain ⟨_, hset, -, hread⟩ := bloomAdd_spec key hbits hlen
  obtain rfl := Option.some_inj.mp (hadd.symm.trans hset)
  intro i hi
  obtain ⟨bit, hbit⟩ := exists_bitAt (keyBits_lt key hbits hlen i hi)
  rw [hread, hbit, Option.map_some, decide_eq_true hi, Bool.or_true]

/-- Adding clears nothing. -/
theorem Knows.add {key' : CStr} (hlen : filter.length = size.toNat) (hbits : size * 8 ≠ 0)
    (hknows : Knows size filter key) (hadd : bloomAdd size filter key' = some after) :
    Knows size after key := by
  obtain ⟨_, hset, -, hread⟩ := bloomAdd_spec key' hbits hlen
  obtain rfl := Option.some_inj.mp (hadd.symm.trans hset)
  intro i hi
  rw [hread, hknows i hi, Option.map_some, Bool.true_or]

theorem knows_of_addAll (keys : List CStr) (hlen : filter.length = size.toNat)
    (hbits : size * 8 ≠ 0) :
    ∃ after, keys.foldlM (bloomAdd size) filter = some after ∧ after.length = size.toNat ∧
      ∀ key, key ∈ keys ∨ Knows size filter key → Knows size after key := by
  induction keys generalizing filter with
  | nil => exact ⟨filter, rfl, hlen, fun _ hkey => hkey.resolve_left List.not_mem_nil⟩
  | cons added keys ih =>
      obtain ⟨next, hnext, hnextLen, -⟩ := bloomAdd_spec added hbits hlen
      obtain ⟨after, hrest, hafterLen, hknows⟩ := ih hnextLen
      refine ⟨after, ?_, hafterLen, fun key hkey => hknows key ?_⟩
      · rw [List.foldlM_cons, hnext]
        exact hrest
      · rcases hkey with hkey | hkey
        · rcases List.mem_cons.mp hkey with rfl | hkey
          · exact Or.inr (knows_of_add hlen hbits hnext)
          · exact Or.inl hkey
        · exact Or.inr (hkey.add hlen hbits hnext)

/-- The keys can be added one after another, each is found afterwards, and the index of a key in
each of the hash functions is that of a bit of the filter. -/
def FindsAdded (size : UInt64) (filter : Bytes size) (keys : List CStr) : Prop :=
  (∃ after, keys.foldlM (bloomAdd size) filter.val = some after ∧
    ∀ key ∈ keys, bloomMayContain size after key = some true) ∧
  ∀ key, ∀ i ∈ hashNumbers, ∃ idx, hashIndex size key i = some idx ∧ idx.toNat / 8 < size.toNat

/-- The number of bits is 0 when it wraps to 0, and it is the modulus of every index. -/
theorem findsAdded_iff (size : UInt64) (filter : Bytes size) (keys : List CStr) :
    FindsAdded size filter keys ↔ size.toNat % 2 ^ 61 ≠ 0 := by
  rw [Ne, ← bits_eq_zero_iff]
  constructor
  · intro hfinds hbits
    obtain ⟨idx, hidx, -⟩ := hfinds.2 ⟨[], List.not_mem_nil⟩ 0 List.mem_cons_self
    rw [hashIndex, if_pos hbits] at hidx
    cases hidx
  · intro hbits
    refine ⟨?_, fun key i _ => ⟨_, hashIndex_eq hbits i, ?_⟩⟩
    · obtain ⟨after, hadd, hlen, hknows⟩ := knows_of_addAll keys filter.property hbits
      refine ⟨after, hadd, fun key hkey => ?_⟩
      rw [bloomMayContain_spec hbits hlen, decide_eq_true (hknows key (Or.inl hkey))]
    · exact div_eight_lt_iff.mpr (mod_bits_lt hbits _)

/-- A filter of 2^61 bytes has 2^64 bits, which `size_t` does not hold. -/
theorem not_findsAdded_hugeFilter :
    ¬ ∀ (size : UInt64) (filter : Bytes size) (keys : List CStr),
      1 ≤ size → FindsAdded size filter keys := by
  intro hall
  have hfinds := hall 2305843009213693952
    ⟨List.replicate _ 0, List.length_replicate⟩ [CStr.lit "a"] (by decide)
  exact (findsAdded_iff _ _ _).mp hfinds (by decide)

/-! ## The filters of the tree -/

/-- Which bits of the bytes are set. -/
def bitsOf (filter : List UInt8) : BloomFilter :=
  fun idx => bitAt filter idx == some true

/-- The bits of a key are the indices of the four hash functions. -/
theorem keyBits_eq_map (key : CStr) :
    keyBits 1024 key = (List.finRange 4).map fun i => (bloomIndex key i : Nat) := by
  have hbit : ∀ h : UInt64, (h % (1024 * 8)).toNat = (Fin.ofNat 8192 h.toNat : Nat) :=
    fun h => UInt64.toNat_mod h (1024 * 8)
  simp only [keyBits, hashNumbers, List.map_cons, List.map_nil, hbit]
  rfl

theorem mem_keyBits_iff (idx : Fin 8192) :
    (idx : Nat) ∈ keyBits 1024 key ↔ ∃ i, bloomIndex key i = idx := by
  rw [keyBits_eq_map, List.mem_map]
  constructor
  · rintro ⟨i, -, hi⟩
    exact ⟨i, Fin.ext hi⟩
  · rintro ⟨i, rfl⟩
    exact ⟨i, List.mem_finRange i, rfl⟩

theorem knows_iff : Knows 1024 filter key ↔ ∀ i, bitsOf filter (bloomIndex key i) = true := by
  rw [Knows, keyBits_eq_map, List.forall_mem_map]
  constructor
  · intro hall i
    rw [bitsOf, hall i (List.mem_finRange i)]
    rfl
  · intro hall i _
    exact eq_of_beq (hall i)

/-- `bloom_add` on the 1024 bytes of a filter of the tree. -/
theorem bitsOf_bloomAdd (hlen : filter.length = 1024) :
    ∃ after, bloomAdd 1024 filter key = some after ∧ after.length = 1024 ∧
      bitsOf after = Storage.bloomAdd (bitsOf filter) key := by
  obtain ⟨after, hadd, hafterLen, hread⟩ :=
    bloomAdd_spec key (by decide : (1024 : UInt64) * 8 ≠ 0) hlen
  refine ⟨after, hadd, hafterLen, funext fun idx => ?_⟩
  obtain ⟨bit, hbit⟩ := exists_bitAt (show idx.val < filter.length * 8 by omega)
  have hdec : decide ((idx : Nat) ∈ keyBits 1024 key) = decide (∃ i, bloomIndex key i = idx) :=
    decide_eq_decide.mpr (mem_keyBits_iff idx)
  rw [Storage.bloomAdd, bitsOf, bitsOf, hread, hbit, Option.map_some, hdec]
  cases bit with
  | true => rfl
  | false => simp

/-- `bloom_may_contain` on the 1024 bytes of a filter of the tree. -/
theorem bloomMayContain_bitsOf (hlen : filter.length = 1024) :
    bloomMayContain 1024 filter key = some (Storage.bloomMayContain (bitsOf filter) key) := by
  rw [bloomMayContain_spec (by decide : (1024 : UInt64) * 8 ≠ 0) hlen, Storage.bloomMayContain]
  exact congrArg some (decide_eq_decide.mpr knows_iff)

end Bloom
end Storage
end InventixDB
