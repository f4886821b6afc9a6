import InventixDB.Lib.Buffer
import InventixDB.Lib.ByteCodec
import InventixDB.Server.Persistence

/-!
# TableFile — the bytes of `security.dat`

`security_load` reads each table to where the table in force stands, its count first, and looks at
what it has read only then.  `Persistence` has the files that `security_save` wrote; here the file
is any string of bytes.
-/

namespace InventixDB
namespace Server

open Lib
open Lib.ByteCodec

/-! ## Memory -/

/-- A table of the context: its `int` count and its array, byte by byte. -/
structure TableMemory where
  count : List UInt8
  records : List UInt8
  deriving DecidableEq

/-- The tables of `g_security` that the file is about. -/
@[ext]
structure SecurityMemory where
  users : TableMemory
  roles : TableMemory
  deriving DecidableEq

def sizeofUser : Nat := 792

def sizeofRole : Nat := 168

/-- The value of an `int` in memory. -/
def int32 (bs : List UInt8) : Int :=
  (BitVec.ofNat 32 (leNat bs)).toInt

/-- The cast to `size_t`. -/
def sizeT (n : Int) : Nat :=
  (n % 2 ^ 64).toNat

namespace TableMemory

/-- The count is that of records the array has room for. -/
structure Valid (size cap : Nat) (t : TableMemory) : Prop where
  count_length : t.count.length = 4
  records_length : t.records.length = size * cap
  count_le : leNat t.count ≤ cap

/-- What `security_save` writes of it. -/
def saved (size : Nat) (t : TableMemory) : List UInt8 :=
  t.count ++ t.records.take (size * leNat t.count)

end TableMemory

/-- Both tables, as every call of the module leaves them. -/
structure SecurityTables extends SecurityMemory where
  users_valid : users.Valid sizeofUser maxUsers
  roles_valid : roles.Valid sizeofRole maxRoles

/-! ## Loading -/

/-- `fread`: the array, how many elements are whole, and the rest of the file.  A part of an element
is stored as well.  Nothing is returned when a byte lands behind the array. -/
def fread (size count : Nat) (array file : List UInt8) :
    Option (List UInt8 × Nat × List UInt8) :=
  let got := file.take (size * count)
  if got.length ≤ array.length then
    some (Buffer.write array 0 got, got.length / size, file.drop (size * count))
  else none

inductive TableRead
  /-- A byte was written behind the array. -/
  | overflow
  /-- `return -1` -/
  | short (t : TableMemory)
  | whole (t : TableMemory) (rest : List UInt8)
  deriving DecidableEq

/-- The two reads of a table. -/
def TableMemory.read (size : Nat) (t : TableMemory) (file : List UInt8) : TableRead :=
  match fread 4 1 t.count file with
  | none => .overflow
  | some (count, n, file) =>
      let t := { t with count := count }
      if n ≠ 1 then .short t
      else
        match fread size (sizeT (int32 count)) t.records file with
        | none => .overflow
        | some (records, n, file) =>
            let t := { t with records := records }
            if n ≠ sizeT (int32 count) then .short t else .whole t file

inductive LoadResult
  /-- A byte was written behind an array. -/
  | overflow
  /-- `return -1` -/
  | failed (mem : SecurityMemory)
  /-- `return 0` -/
  | loaded (mem : SecurityMemory)
  deriving DecidableEq

namespace SecurityMemory

/-- Both tables, the users first. -/
def loadTables (mem : SecurityMemory) (file : List UInt8) : LoadResult :=
  match mem.users.read sizeofUser file with
  | .overflow => .overflow
  | .short users => .failed { mem with users := users }
  | .whole users file =>
      match mem.roles.read sizeofRole file with
      | .overflow => .overflow
      | .short roles => .failed { users := users, roles := roles }
      | .whole roles _ => .loaded { users := users, roles := roles }

/-- `security_load`; `none` is a file that cannot be opened. -/
def load (mem : SecurityMemory) (file : Option (List UInt8)) : LoadResult :=
  match file with
  | none => .failed mem
  | some file =>
      match fread 4 1 (List.replicate 4 0) file with
      | none => .overflow
      | some (magic, n, file) =>
          if n ≠ 1 ∨ leNat magic ≠ securityMagic.toNat then .failed mem else mem.loadTables file

/-- `security_save` -/
def save (mem : SecurityMemory) : List UInt8 :=
  leBytes 4 securityMagic.toNat ++ (mem.users.saved sizeofUser ++ mem.roles.saved sizeofRole)

end SecurityMemory

/-- After a load that fails the tables are as they were, after one that does not the counts are in
range, and no byte has landed behind an array. -/
def LoadResult.AllOrNothing (mem : SecurityMemory) : LoadResult → Prop
  | .overflow => False
  | .failed after => after = mem
  | .loaded after =>
      0 ≤ int32 after.users.count ∧ int32 after.users.count ≤ maxUsers ∧
        0 ≤ int32 after.roles.count ∧ int32 after.roles.count ≤ maxRoles

/-! ## What a file announces -/

/-- A whole table stands at the start of the file, with no more records than the array takes. -/
def HoldsTable (size cap : Nat) (file : List UInt8) : Prop :=
  4 ≤ file.length ∧ leNat (file.take 4) ≤ cap ∧ 4 + size * leNat (file.take 4) ≤ file.length

instance (size cap : Nat) (file : List UInt8) : Decidable (HoldsTable size cap file) := by
  unfold HoldsTable
  infer_instance

/-- What stands behind it. -/
def behindTable (size : Nat) (file : List UInt8) : List UInt8 :=
  file.drop (4 + size * leNat (file.take 4))

theorem leNat_lt (bs : List UInt8) : leNat bs < 256 ^ bs.length := by
  have hread := leNat_leBytes bs.length (leNat bs)
  rw [leBytes_leNat] at hread
  rw [hread]
  exact Nat.mod_lt _ (Nat.pow_pos (by decide))

/-- A negative count is a huge one. -/
theorem sizeT_int32 {bs : List UInt8} (hlen : bs.length = 4) :
    sizeT (int32 bs) = leNat bs ∨ 2 ^ 31 ≤ leNat bs ∧ 2 ^ 31 ≤ sizeT (int32 bs) := by
  have hlt := leNat_lt bs
  rw [hlen] at hlt
  rw [int32, BitVec.toInt_eq_toNat_cond, BitVec.toNat_ofNat]
  unfold sizeT
  split <;> omega

theorem int32_of_le {bs : List UInt8} {cap : Nat} (hcap : cap < 2 ^ 31)
    (hle : leNat bs ≤ cap) : 0 ≤ int32 bs ∧ int32 bs ≤ cap := by
  rw [int32, BitVec.toInt_eq_toNat_cond, BitVec.toNat_ofNat]
  split <;> omega

/-! ## One read -/

/-- Bytes copied over an array leave it as it is exactly when it starts with them. -/
theorem write_eq_self {buf data : List UInt8} (hle : data.length ≤ buf.length) :
    Buffer.write buf 0 data = buf ↔ data <+: buf := by
  rw [Buffer.write, List.take_zero, List.nil_append, Nat.sub_zero, Nat.zero_add,
    List.take_of_length_le hle]
  constructor
  · exact fun heq => ⟨_, heq⟩
  · rintro ⟨tail, rfl⟩
    rw [List.drop_left]

theorem fread_whole {size count : Nat} {array file : List UInt8} (hsize : 0 < size)
    (hfit : size * count ≤ array.length) (hfile : size * count ≤ file.length) :
    fread size count array file =
      some (Buffer.write array 0 (file.take (size * count)), count, file.drop (size * count)) := by
  rw [fread]
  rw [List.length_take_of_le hfile, if_pos hfit, Nat.mul_div_cancel_left _ hsize]

/-- The file ends first: fewer elements are whole. -/
theorem fread_short {size count : Nat} {array file : List UInt8}
    (hfile : file.length < size * count) (hfit : file.length ≤ array.length) :
    ∃ n < count, fread size count array file = some (Buffer.write array 0 file, n, []) := by
  refine ⟨file.length / size, Nat.div_lt_of_lt_mul hfile, ?_⟩
  rw [fread]
  rw [List.take_of_length_le hfile.le, if_pos hfit, List.drop_eq_nil_of_le hfile.le]

theorem fread_overflow {size count : Nat} {array file : List UInt8}
    (hcount : array.length < size * count) (hfile : array.length < file.length) :
    fread size count array file = none := by
  rw [fread]
  rw [if_neg]
  rw [List.length_take]
  omega

/-- The start of what is written in two parts, the first of them whole. -/
theorem prefix_append_iff {file a b : List UInt8} (hle : a.length ≤ file.length) :
    file <+: a ++ b ↔ file.take a.length = a ∧ file.drop a.length <+: b := by
  constructor
  · rintro ⟨tail, htail⟩
    constructor
    · have htake : (file ++ tail).take a.length = file.take a.length :=
        List.take_append_of_le_length hle
      rw [← htake, htail, List.take_left]
    · exact ⟨tail, by rw [← List.drop_append_of_le_length hle, htail, List.drop_left]⟩
  · rintro ⟨htake, hdrop⟩
    rw [← List.take_append_drop a.length file, htake]
    exact (List.prefix_append_right_inj a).mpr hdrop

/-! ## One table -/

namespace TableMemory

variable {size cap : Nat} {t : TableMemory} {file : List UInt8}

theorem mk_eq_iff {count records : List UInt8} :
    TableMemory.mk count records = t ↔ count = t.count ∧ records = t.records := by
  cases t
  exact TableMemory.mk.injEq .. ▸ Iff.rfl

/-- The count is read, and the records are asked for. -/
theorem read_eq (hv : t.Valid size cap) (hfile : 4 ≤ file.length) :
    t.read size file =
      match fread size (sizeT (int32 (file.take 4))) t.records (file.drop 4) with
      | none => .overflow
      | some (records, n, file') =>
          if n ≠ sizeT (int32 (file.take 4)) then
            .short { count := file.take 4, records := records }
          else .whole { count := file.take 4, records := records } file' := by
  have hcount : Buffer.write t.count 0 (file.take 4) = file.take 4 := by
    rw [Buffer.write, List.take_zero, List.nil_append, hv.count_length, List.take_take,
      List.drop_eq_nil_of_le (by rw [hv.count_length, List.length_take_of_le hfile]),
      List.append_nil, Nat.sub_zero, min_self]
  rw [read, fread_whole (by decide) (by rw [hv.count_length]) (by omega)]
  simp [hcount]

/-- A whole table takes the place of the one in force, which need not show. -/
theorem read_whole (hv : t.Valid size cap) (hsize : 0 < size) (hcap : cap < 2 ^ 31)
    (hholds : HoldsTable size cap file) :
    ∃ t', t.read size file = .whole t' (behindTable size file) ∧ t'.Valid size cap ∧
      file = t'.saved size ++ behindTable size file ∧
      (t' = t ↔ file = t.saved size ++ behindTable size file) := by
  obtain ⟨hfile, hle, hroom⟩ := hholds
  have hfour : (file.take 4).length = 4 := List.length_take_of_le hfile
  have hnum : sizeT (int32 (file.take 4)) = leNat (file.take 4) := by
    obtain heq | ⟨hbig, -⟩ := sizeT_int32 hfour
    · exact heq
    · omega
  have hfit : size * leNat (file.take 4) ≤ t.records.length := by
    rw [hv.records_length]
    exact Nat.mul_le_mul_left size hle
  have hbody : size * leNat (file.take 4) ≤ (file.drop 4).length := by
    rw [List.length_drop]
    omega
  refine ⟨⟨file.take 4, Buffer.write t.records 0
    ((file.drop 4).take (size * leNat (file.take 4)))⟩, ?_, ⟨hfour, ?_, hle⟩, ?_, ?_⟩
  · rw [read_eq hv hfile, hnum, fread_whole hsize hfit hbody]
    simp [behindTable, List.drop_drop]
  · rw [Buffer.length_write, hv.records_length]
  · have hinside : 0 + ((file.drop 4).take (size * leNat (file.take 4))).length ≤
        t.records.length := by
      rw [List.length_take_of_le hbody, Nat.zero_add]
      exact hfit
    have hback := Buffer.read_write hinside
    rw [Buffer.read, List.drop_zero, List.length_take_of_le hbody] at hback
    rw [saved, behindTable]
    dsimp only
    rw [hback, List.append_assoc, ← List.drop_drop, List.take_append_drop, List.take_append_drop]
  · have hlast : (file.drop 4).take (size * leNat (file.take 4)) <+: t.records ↔
        (file.drop 4).take (size * leNat (file.take 4)) =
          t.records.take (size * leNat (file.take 4)) := by
      rw [List.prefix_iff_eq_take, List.length_take_of_le hbody]
    rw [mk_eq_iff, write_eq_self (by rw [List.length_take_of_le hbody]; exact hfit), hlast, saved,
      behindTable]
    constructor
    · rintro ⟨hcount, hrecords⟩
      rw [← hcount, ← hrecords, List.append_assoc, ← List.drop_drop, List.take_append_drop,
        List.take_append_drop]
    · intro hsplit
      have hcount : file.take 4 = t.count := by
        have htake := congrArg (List.take 4) hsplit
        rwa [List.append_assoc, List.take_left' hv.count_length] at htake
      refine ⟨hcount, ?_⟩
      have hdrop := congrArg (List.drop 4) hsplit
      rw [List.append_assoc, List.drop_left' hv.count_length] at hdrop
      rw [hcount] at hfit
      rw [hdrop, hcount, List.take_left' (List.length_take_of_le hfit)]

/-- Any other file: the tables stay as they are when it is the start of what they are saved as. -/
theorem read_broken (hv : t.Valid size cap) (hsize : 0 < size) (hcap : cap < 2 ^ 31)
    (hbroken : ¬HoldsTable size cap file) :
    (∀ t' rest, t.read size file ≠ .whole t' rest) ∧
      (t.read size file = .short t ↔ file <+: t.saved size) := by
  have hfour := hv.count_length
  by_cases hfile : 4 ≤ file.length
  · have htake : (file.take 4).length = 4 := List.length_take_of_le hfile
    have hstarts : file <+: t.saved size ↔ file.take 4 = t.count ∧
        file.drop 4 <+: t.records.take (size * leNat t.count) := by
      have hcount : t.count.length ≤ file.length := by omega
      have hiff : file <+: t.saved size ↔ file.take t.count.length = t.count ∧
          file.drop t.count.length <+: t.records.take (size * leNat t.count) :=
        prefix_append_iff hcount
      rwa [hfour] at hiff
    rw [hstarts, read_eq hv hfile]
    by_cases hle : leNat (file.take 4) ≤ cap
    · -- the records are cut off
      have hnum : sizeT (int32 (file.take 4)) = leNat (file.take 4) := by
        obtain heq | ⟨hbig, -⟩ := sizeT_int32 htake
        · exact heq
        · omega
      have hcut : (file.drop 4).length < size * leNat (file.take 4) := by
        rw [List.length_drop]
        unfold HoldsTable at hbroken
        omega
      have hroom : size * leNat (file.take 4) ≤ t.records.length := by
        rw [hv.records_length]
        exact Nat.mul_le_mul_left size hle
      obtain ⟨n, hn, hread⟩ := fread_short hcut (by omega : (file.drop 4).length ≤ t.records.length)
      rw [hnum, hread]
      simp only [hn.ne, ne_eq, not_false_eq_true, if_true]
      refine ⟨fun _ _ => nofun, ?_⟩
      rw [TableRead.short.injEq, mk_eq_iff, write_eq_self (by omega)]
      refine and_congr_right fun hcount => ?_
      rw [List.prefix_take_iff, ← hcount]
      exact (and_iff_left hcut.le).symm
    · -- more records than the array takes
      have hnum : cap < sizeT (int32 (file.take 4)) := by
        obtain heq | ⟨-, hbig⟩ := sizeT_int32 htake
        · omega
        · omega
      have hcount : file.take 4 ≠ t.count := fun heq => hle (heq ▸ hv.count_le)
      have hmore : t.records.length < size * sizeT (int32 (file.take 4)) := by
        rw [hv.records_length]
        exact Nat.mul_lt_mul_of_pos_left hnum hsize
      obtain hover | hfit := Nat.lt_or_ge t.records.length (file.drop 4).length
      · rw [fread_overflow hmore hover]
        exact ⟨fun _ _ => nofun, nofun, fun h => absurd h.1 hcount⟩
      · obtain ⟨n, hn, hread⟩ := fread_short (hfit.trans_lt hmore) hfit
        rw [hread]
        simp only [hn.ne, ne_eq, not_false_eq_true, if_true]
        refine ⟨fun _ _ => nofun, ?_⟩
        rw [TableRead.short.injEq, mk_eq_iff]
        exact ⟨fun h => absurd h.1 hcount, fun h => absurd h.1 hcount⟩
  · -- the count itself is cut off
    have hfile : file.length < 4 * 1 := by omega
    obtain ⟨n, hn, hread⟩ := fread_short hfile (by omega : file.length ≤ t.count.length)
    rw [read, hread]
    simp only [hn.ne, ne_eq, not_false_eq_true, if_true]
    refine ⟨fun _ _ => nofun, ?_⟩
    rw [TableRead.short.injEq, mk_eq_iff, write_eq_self (by omega)]
    constructor
    · exact fun h => h.1.trans (List.prefix_append _ _)
    · exact fun h => ⟨List.prefix_of_prefix_length_le h (List.prefix_append _ _) (by omega), rfl⟩

theorem length_saved (hv : t.Valid size cap) :
    (t.saved size).length = 4 + size * leNat t.count := by
  have hroom := Nat.mul_le_mul_left size hv.count_le
  rw [← hv.records_length] at hroom
  rw [saved, List.length_append, hv.count_length, List.length_take_of_le hroom]

/-- A whole table is at most the one in force when the file is the start of what is saved. -/
theorem prefix_saved_whole (hv : t.Valid size cap) (hholds : HoldsTable size cap file)
    (tail : List UInt8) :
    file <+: t.saved size ++ tail ↔
      file = t.saved size ++ behindTable size file ∧ behindTable size file <+: tail := by
  constructor
  · intro hstarts
    have hcount : file.take 4 = t.count := by
      rw [saved, List.append_assoc, prefix_append_iff (by rw [hv.count_length]; exact hholds.1),
        hv.count_length] at hstarts
      exact hstarts.1
    have hlen := length_saved hv
    rw [← hcount] at hlen
    have hle : (t.saved size).length ≤ file.length := by
      rw [hlen]
      exact hholds.2.2
    have hrest : file.drop (t.saved size).length = behindTable size file := by
      rw [hlen, behindTable]
    obtain ⟨htake, htail⟩ := (prefix_append_iff hle).mp hstarts
    rw [hrest] at htail
    refine ⟨?_, htail⟩
    calc file = file.take (t.saved size).length ++ file.drop (t.saved size).length :=
          (List.take_append_drop _ _).symm
      _ = t.saved size ++ behindTable size file := by rw [htake, hrest]
  · rintro ⟨hsplit, hstarts⟩
    rw [hsplit]
    exact (List.prefix_append_right_inj _).mpr hstarts

/-- A file that holds no whole table ends inside of the one in force, or differs from it. -/
theorem prefix_saved_broken (hv : t.Valid size cap) (hbroken : ¬HoldsTable size cap file)
    (tail : List UInt8) : file <+: t.saved size ++ tail ↔ file <+: t.saved size := by
  refine ⟨fun hstarts => ?_, fun hstarts => hstarts.trans (List.prefix_append _ _)⟩
  obtain hle | hlt := le_or_gt (t.saved size).length file.length
  · -- the table in force is whole
    have hwhole := (prefix_append_iff hle).mp hstarts
    rw [length_saved hv] at hle hwhole
    have hcount : file.take 4 = t.count := by
      have htake := congrArg (List.take 4) hwhole.1
      rwa [List.take_take, min_eq_left (by omega), saved, List.take_left' hv.count_length] at htake
    exact absurd ⟨by omega, hcount ▸ hv.count_le, hcount ▸ hle⟩ hbroken
  · exact List.prefix_of_prefix_length_le hstarts (List.prefix_append _ _) hlt.le

end TableMemory

/-! ## Both tables -/

/-- Both tables are whole, behind the magic number. -/
def WholeFile (file : List UInt8) : Prop :=
  HoldsTable sizeofUser maxUsers (file.drop 4) ∧
    HoldsTable sizeofRole maxRoles (behindTable sizeofUser (file.drop 4))

namespace SecurityMemory

open TableMemory

variable {mem : SecurityMemory} {file : List UInt8}

theorem length_magic : (leBytes 4 securityMagic.toNat).length = 4 :=
  length_leBytes _ _

theorem load_of_magic (mem : SecurityMemory) (body : List UInt8) :
    mem.load (some (leBytes 4 securityMagic.toNat ++ body)) = mem.loadTables body := by
  have hfour : 4 * 1 ≤ (leBytes 4 securityMagic.toNat ++ body).length := by
    rw [List.length_append, length_magic]
    omega
  have hmagic : leNat (leBytes 4 securityMagic.toNat) = securityMagic.toNat := by decide
  have hwrite : Buffer.write (List.replicate 4 0) 0 (leBytes 4 securityMagic.toNat) =
      leBytes 4 securityMagic.toNat := rfl
  rw [load, fread_whole (by decide) (by decide) hfour, List.take_left' length_magic,
    List.drop_left' length_magic, hwrite]
  dsimp only
  rw [hmagic, if_neg (by simp)]

theorem load_of_no_magic (mem : SecurityMemory)
    (hmagic : ¬leBytes 4 securityMagic.toNat <+: file) : mem.load (some file) = .failed mem := by
  by_cases hfile : 4 ≤ file.length
  · have hfour : (file.take 4).length = 4 := List.length_take_of_le hfile
    have hne : leNat (file.take 4) ≠ securityMagic.toNat := by
      intro heq
      have hbytes := leBytes_leNat (file.take 4)
      rw [hfour, heq] at hbytes
      exact hmagic (hbytes ▸ List.take_prefix 4 file)
    have hwrite : Buffer.write (List.replicate 4 0) 0 (file.take 4) = file.take 4 := by
      rw [Buffer.write, List.take_zero, List.nil_append, List.length_replicate, Nat.sub_zero,
        List.take_of_length_le hfour.le, Nat.zero_add, hfour]
      exact List.append_nil _
    rw [load, fread_whole (by decide) (by decide) (by omega)]
    dsimp only
    rw [Nat.mul_one, hwrite, if_pos (.inr hne)]
  · have hshort : file.length < 4 * 1 := by omega
    have hroom : file.length ≤ (List.replicate 4 (0 : UInt8)).length := by
      rw [List.length_replicate]
      omega
    obtain ⟨n, hn, hread⟩ := fread_short hshort hroom
    rw [load, hread]
    dsimp only
    rw [if_pos (.inl hn.ne)]

theorem maxUsers_lt : maxUsers < 2 ^ 31 := by decide

theorem maxRoles_lt : maxRoles < 2 ^ 31 := by decide

/-- Behind the magic number, the file has whole tables or is the start of those in force. -/
theorem loadTables_allOrNothing_iff (t : SecurityTables) (body : List UInt8) :
    (t.loadTables body).AllOrNothing t.toSecurityMemory ↔
      HoldsTable sizeofUser maxUsers body ∧
          HoldsTable sizeofRole maxRoles (behindTable sizeofUser body) ∨
        body <+: t.users.saved sizeofUser ++ t.roles.saved sizeofRole := by
  have hu := t.users_valid
  have hr := t.roles_valid
  by_cases husers : HoldsTable sizeofUser maxUsers body
  · obtain ⟨users, hread, hvalid, -, hsame⟩ := read_whole hu (by decide) maxUsers_lt husers
    rw [loadTables, hread]
    dsimp only
    by_cases hroles : HoldsTable sizeofRole maxRoles (behindTable sizeofUser body)
    · -- both tables are whole
      obtain ⟨roles, hread', hvalid', -⟩ := read_whole hr (by decide) maxRoles_lt hroles
      rw [hread']
      obtain ⟨hlow, hhigh⟩ := int32_of_le maxUsers_lt hvalid.count_le
      obtain ⟨hlow', hhigh'⟩ := int32_of_le maxRoles_lt hvalid'.count_le
      exact iff_of_true ⟨hlow, hhigh, hlow', hhigh'⟩ (.inl ⟨husers, hroles⟩)
    · -- the users have been replaced when the roles turn out to be cut off
      obtain ⟨hnot, hshort⟩ := read_broken hr (by decide) maxRoles_lt hroles
      rw [prefix_saved_whole hu husers, ← hsame, ← hshort]
      cases hread' : t.roles.read sizeofRole (behindTable sizeofUser body) with
      | overflow => simp [LoadResult.AllOrNothing, hroles]
      | short roles => simp [LoadResult.AllOrNothing, hroles, SecurityMemory.ext_iff]
      | whole roles rest => exact absurd hread' (hnot _ _)
  · obtain ⟨hnot, hshort⟩ := read_broken hu (by decide) maxUsers_lt husers
    rw [prefix_saved_broken hu husers, ← hshort, loadTables]
    cases hread : t.users.read sizeofUser body with
    | overflow => simp [LoadResult.AllOrNothing, husers]
    | short users => simp [LoadResult.AllOrNothing, husers, SecurityMemory.ext_iff]
    | whole users rest => exact absurd hread (hnot _ _)

end SecurityMemory

open SecurityMemory TableMemory

/-- A load leaves the tables alone, or reads both of them, exactly for these files: those that are
none of the module, whole ones, and the start of what `security_save` would write. -/
theorem load_allOrNothing_iff (t : SecurityTables) (file : Option (List UInt8)) :
    (t.load file).AllOrNothing t.toSecurityMemory ↔ ∀ bytes ∈ file,
      ¬leBytes 4 securityMagic.toNat <+: bytes ∨ WholeFile bytes ∨ bytes <+: t.save := by
  cases file with
  | none => exact ⟨fun _ => nofun, fun _ => rfl⟩
  | some bytes =>
      simp only [Option.mem_def, Option.some.injEq, forall_eq']
      by_cases hmagic : leBytes 4 securityMagic.toNat <+: bytes
      · obtain ⟨body, rfl⟩ := hmagic
        rw [load_of_magic, loadTables_allOrNothing_iff, WholeFile, List.drop_left' length_magic,
          save, List.prefix_append_right_inj]
        simp
      · rw [load_of_no_magic _ hmagic]
        exact iff_of_true rfl (.inl hmagic)

/-- The tables before the first user. -/
def emptyTables : SecurityTables where
  users := { count := leBytes 4 0, records := List.replicate (sizeofUser * maxUsers) 0 }
  roles := { count := leBytes 4 0, records := List.replicate (sizeofRole * maxRoles) 0 }
  users_valid := ⟨rfl, List.length_replicate, Nat.zero_le _⟩
  roles_valid := ⟨rfl, List.length_replicate, Nat.zero_le _⟩

/-- A file of eight bytes that announces 300 users: the load fails, and the count is 300. -/
theorem load_threeHundred :
    ¬(emptyTables.load (some (leBytes 4 securityMagic.toNat ++ leBytes 4 300))).AllOrNothing
      emptyTables.toSecurityMemory := by
  rw [load_of_magic, loadTables_allOrNothing_iff]
  rintro (⟨husers, -⟩ | hstarts)
  · exact absurd husers (by decide)
  · rw [saved, List.append_assoc, prefix_append_iff (by decide)] at hstarts
    exact absurd hstarts.1 (by decide)

/-! ## Saved tables -/

theorem holdsTable_saved {size cap : Nat} {t : TableMemory} (hv : t.Valid size cap)
    (tail : List UInt8) :
    HoldsTable size cap (t.saved size ++ tail) ∧
      behindTable size (t.saved size ++ tail) = tail := by
  have hcount : (t.saved size ++ tail).take 4 = t.count := by
    rw [saved, List.append_assoc, List.take_left' hv.count_length]
  have hlen := length_saved hv
  rw [HoldsTable, behindTable, hcount, ← hlen, List.drop_left, List.length_append]
  exact ⟨⟨by omega, hv.count_le, by omega⟩, rfl⟩

/-- What was saved is loaded, whatever the tables were before. -/
theorem load_saved_tables (t before : SecurityTables) :
    ∃ after : SecurityTables, before.load (some t.save) = .loaded after.toSecurityMemory ∧
      after.users.saved sizeofUser = t.users.saved sizeofUser ∧
      after.roles.saved sizeofRole = t.roles.saved sizeofRole := by
  obtain ⟨husers, hbehind⟩ := holdsTable_saved t.users_valid (t.roles.saved sizeofRole)
  obtain ⟨hroles, hend⟩ := holdsTable_saved t.roles_valid []
  rw [List.append_nil] at hroles hend
  obtain ⟨users, hread, hvalid, hsaved, -⟩ :=
    read_whole before.users_valid (by decide) maxUsers_lt husers
  obtain ⟨roles, hread', hvalid', hsaved', -⟩ :=
    read_whole before.roles_valid (by decide) maxRoles_lt hroles
  rw [hbehind] at hread hsaved
  rw [hend, List.append_nil] at hsaved'
  refine ⟨{ users := users, roles := roles, users_valid := hvalid, roles_valid := hvalid' }, ?_,
    (List.append_cancel_right hsaved).symm, hsaved'.symm⟩
  rw [save, load_of_magic, loadTables, hread]
  dsimp only
  rw [hread']

end Server
end InventixDB
