import Mathlib.Data.List.Basic
import Mathlib.Tactic.Common

/-!
# The partitions of a disk

`TryCreateMbrPartition`, `GetMbrPartitions` and `GetPartitionsForDisk` of `kernel/dev/partition.c`.
-/

namespace Nolrem.Dev

/-! ## The data -/

/-- The bytes of a sector, or of a block of the heap -/
abbrev Bytes := Nat → UInt8

/-- `struct partition_data` as `CreatePartition` fills it in -/
structure MbrPartition where
  id : Nat
  startByte : UInt64
  lengthBytes : UInt64
  diskBytesPerSector : UInt32
  mediaType : UInt8
  boot : Bool
deriving DecidableEq, Repr

/-- A disk: its sectors, and the `st_blksize` of its node, which is passed on as an `int` -/
structure Disk where
  sector : Nat → Bytes
  blksize : UInt32
  blksize_lt : blksize.toNat < 2147483648

/-! ## The code -/

/-- The four bytes at `offset`, as `TryCreateMbrPartition` shifts them together -/
def littleEndian32 (mem : Bytes) (offset : Nat) : UInt32 :=
  let word := (mem (offset + 3)).toUInt32
  let word := word <<< 8 ||| (mem (offset + 2)).toUInt32
  let word := word <<< 8 ||| (mem (offset + 1)).toUInt32
  word <<< 8 ||| (mem offset).toUInt32

/-- `TryCreateMbrPartition` -/
def tryCreateMbrPartition (mem : Bytes) (index : Nat) (sectorSize : UInt32) :
    Option MbrPartition :=
  let offset := 0x1BE + index * 16
  let active := mem offset
  if active &&& 0x7F ≠ 0 then none
  else
    let startSector := littleEndian32 mem (offset + 8)
    let totalSectors := littleEndian32 mem (offset + 12)
    if startSector = 0 ∧ totalSectors = 0 then none
    else
      some
        { id := index
          startByte := startSector.toUInt64 * sectorSize.toUInt64
          lengthBytes := totalSectors.toUInt64 * sectorSize.toUInt64
          diskBytesPerSector := sectorSize
          mediaType := mem (offset + 4)
          boot := active &&& 0x80 ≠ 0 }

/-- The loop of `GetMbrPartitions` from entry `i` on, `fuel` entries long -/
def mbrLoop (mem : Bytes) (sectorSize : UInt32) : Nat → Nat → List MbrPartition
  | 0, _ => []
  | fuel + 1, i =>
    match tryCreateMbrPartition mem i sectorSize with
    | none => mbrLoop mem sectorSize fuel (i + 1)
    | some partition => partition :: mbrLoop mem sectorSize fuel (i + 1)

/--
`GetMbrPartitions`, where `heap` is what `AllocHeap` answers: a block with the bytes that were left
in it. `NULL` is `none`. The disk is never read.
-/
def getMbrPartitions (disk : Disk) (heap : Option Bytes) : Option (List MbrPartition) :=
  match heap with
  | none => none
  | some mem =>
    if mem 0x1FE ≠ 0x55 then none
    else if mem 0x1FF ≠ 0xAA then none
    else some (mbrLoop mem disk.blksize 4 0)

/-- `GetPartitionsForDisk` -/
def getPartitionsForDisk (disk : Disk) (heap : Option Bytes) : Option (List MbrPartition) :=
  getMbrPartitions disk heap

/-! ## What is on the disk -/

/-- A partition as the table on a disk describes it -/
structure TableEntry where
  index : Nat
  start : Nat
  length : Nat
  mediaType : Nat
  boot : Bool
deriving DecidableEq, Repr

/-- The number in the four bytes at `offset`, least significant byte first -/
def number (sector : Bytes) (offset : Nat) : Nat :=
  (sector offset).toNat + 256 * (sector (offset + 1)).toNat +
    65536 * (sector (offset + 2)).toNat + 16777216 * (sector (offset + 3)).toNat

/-- Bytes 510 and 511 are the boot signature. -/
def Signed (sector : Bytes) : Prop := sector 510 = 85 ∧ sector 511 = 170

instance (sector : Bytes) : Decidable (Signed sector) := inferInstanceAs (Decidable (_ ∧ _))

/-- What the 16 bytes from byte `446 + 16 * i` on describe, if anything -/
def decodeEntry (sector : Bytes) (sectorSize i : Nat) : Option TableEntry :=
  let status := sector (446 + 16 * i)
  let start := number sector (446 + 16 * i + 8)
  let length := number sector (446 + 16 * i + 12)
  if (status = 0 ∨ status = 128) ∧ ¬(start = 0 ∧ length = 0) then
    some ⟨i, start * sectorSize, length * sectorSize, (sector (446 + 16 * i + 4)).toNat,
      status = 128⟩
  else none

/-- The entry `i` that a sector shows: none without the signature -/
def shownEntry (sector : Bytes) (sectorSize i : Nat) : Option TableEntry :=
  if Signed sector then decodeEntry sector sectorSize i else none

/-- The partitions that the table of a disk describes, in order -/
def Disk.table (disk : Disk) : List TableEntry :=
  (List.range 4).filterMap (shownEntry (disk.sector 0) disk.blksize.toNat)

/-- A partition of the code, as an entry of a table -/
def MbrPartition.entry (p : MbrPartition) : TableEntry :=
  ⟨p.id, p.startByte.toNat, p.lengthBytes.toNat, p.mediaType.toNat, p.boot⟩

/-- The partitions that `GetPartitionsForDisk` lists. `NULL` lists none. -/
def listed (disk : Disk) (heap : Option Bytes) : List TableEntry :=
  ((getPartitionsForDisk disk heap).getD []).map MbrPartition.entry

/-! ## Decoding an entry -/

/-- One step of shifting bytes together -/
theorem toNat_shift_or (word : UInt32) (byte : UInt8) (h : word.toNat < 16777216) :
    (word <<< 8 ||| byte.toUInt32).toNat = 256 * word.toNat + byte.toNat := by
  have hb := byte.toNat_lt
  rw [UInt32.toNat_or, UInt32.toNat_shiftLeft, UInt8.toNat_toUInt32]
  rw [show (8 : UInt32).toNat % 32 = 8 from rfl, Nat.shiftLeft_eq]
  rw [Nat.mod_eq_of_lt (by omega), ← Nat.shiftLeft_eq]
  rw [← Nat.shiftLeft_add_eq_or_of_lt hb, Nat.shiftLeft_eq]
  omega

theorem toNat_littleEndian32 (mem : Bytes) (offset : Nat) :
    (littleEndian32 mem offset).toNat = number mem offset := by
  have h0 := (mem offset).toNat_lt
  have h1 := (mem (offset + 1)).toNat_lt
  have h2 := (mem (offset + 2)).toNat_lt
  have h3 := (mem (offset + 3)).toNat_lt
  unfold littleEndian32 number
  have w3 : (mem (offset + 3)).toUInt32.toNat = (mem (offset + 3)).toNat := rfl
  have w2 := toNat_shift_or (mem (offset + 3)).toUInt32 (mem (offset + 2)) (by omega)
  have w1 := toNat_shift_or _ (mem (offset + 1)) (by rw [w2]; omega)
  have w0 := toNat_shift_or _ (mem offset) (by rw [w1, w2]; omega)
  rw [w0, w1, w2, w3]
  omega

/-- No product of a sector number and the sector size wraps. -/
theorem toNat_sectors_mul (sectors size : UInt32) :
    (sectors.toUInt64 * size.toUInt64).toNat = sectors.toNat * size.toNat := by
  have hs := sectors.toNat_lt
  have hz := size.toNat_lt
  rw [UInt64.toNat_mul, UInt32.toNat_toUInt64, UInt32.toNat_toUInt64]
  refine Nat.mod_eq_of_lt ?_
  calc sectors.toNat * size.toNat
      < 4294967296 * 4294967296 := Nat.mul_lt_mul'' hs hz
    _ = 18446744073709551616 := by decide

/-- The test of the status byte -/
theorem status_iff (status : UInt8) : status &&& 0x7F = 0 ↔ status = 0 ∨ status = 128 := by
  have hs := status.toNat_lt
  have hand : (status &&& 0x7F).toNat = status.toNat % 128 := by
    rw [UInt8.toNat_and]
    exact Nat.and_two_pow_sub_one_eq_mod status.toNat 7
  rw [← UInt8.toNat_inj, ← UInt8.toNat_inj, ← UInt8.toNat_inj, hand]
  change status.toNat % 128 = 0 ↔ status.toNat = 0 ∨ status.toNat = 128
  omega

/-- The boot flag, once the status byte passed its test -/
theorem boot_eq {status : UInt8} (h : status = 0 ∨ status = 128) :
    decide (status &&& 0x80 ≠ 0) = decide (status = 128) := by
  rcases h with rfl | rfl
  · decide
  · decide

/-- `TryCreateMbrPartition` makes the partition that the bytes describe. -/
theorem tryCreateMbrPartition_entry (mem : Bytes) (i : Nat) (sectorSize : UInt32) :
    (tryCreateMbrPartition mem i sectorSize).map MbrPartition.entry =
      decodeEntry mem sectorSize.toNat i := by
  have hoff : 0x1BE + i * 16 = 446 + 16 * i := by omega
  have hzero : ∀ offset, littleEndian32 mem offset = 0 ↔ number mem offset = 0 := by
    intro offset
    rw [← UInt32.toNat_inj, toNat_littleEndian32]
    rfl
  unfold tryCreateMbrPartition decodeEntry
  simp only [hoff, hzero, ne_eq, status_iff]
  by_cases hst : mem (446 + 16 * i) = 0 ∨ mem (446 + 16 * i) = 128
  · rw [if_neg (not_not_intro hst)]
    by_cases hz : number mem (446 + 16 * i + 8) = 0 ∧ number mem (446 + 16 * i + 12) = 0
    · rw [if_pos hz, if_neg (fun h => h.2 hz)]
      rfl
    · rw [if_neg hz, if_pos ⟨hst, hz⟩, Option.map_some]
      unfold MbrPartition.entry
      simp only [toNat_sectors_mul, toNat_littleEndian32]
      rw [boot_eq hst]
  · rw [if_pos hst, if_neg (fun h => hst h.1)]
    rfl

/-- The loop makes the partitions of its entries, in order. -/
theorem mbrLoop_entries (mem : Bytes) (sectorSize : UInt32) (fuel i : Nat) :
    (mbrLoop mem sectorSize fuel i).map MbrPartition.entry =
      (List.range' i fuel).filterMap (decodeEntry mem sectorSize.toNat) := by
  induction fuel generalizing i with
  | zero => rfl
  | succ fuel ih =>
    have hentry := tryCreateMbrPartition_entry mem i sectorSize
    rw [mbrLoop, List.range'_succ]
    cases hp : tryCreateMbrPartition mem i sectorSize with
    | none =>
      rw [hp] at hentry
      rw [List.filterMap_cons_none hentry.symm]
      exact ih (i + 1)
    | some partition =>
      rw [hp] at hentry
      rw [List.filterMap_cons_some hentry.symm, List.map_cons, ih (i + 1)]

/-! ## What is listed -/

/-- What a block of the heap shows of entry `i` -/
def heapEntry (heap : Option Bytes) (sectorSize i : Nat) : Option TableEntry :=
  heap.bind fun mem => shownEntry mem sectorSize i

/-- The list is the table that the block shows. -/
theorem listed_eq (disk : Disk) (heap : Option Bytes) :
    listed disk heap = (List.range 4).filterMap (heapEntry heap disk.blksize.toNat) := by
  unfold listed getPartitionsForDisk getMbrPartitions
  cases heap with
  | none => rfl
  | some mem =>
    have hshown : heapEntry (some mem) disk.blksize.toNat =
        shownEntry mem disk.blksize.toNat := rfl
    rw [hshown]
    by_cases hs : Signed mem
    · have hfun : shownEntry mem disk.blksize.toNat = decodeEntry mem disk.blksize.toNat :=
        funext fun i => if_pos hs
      simp only [show mem 0x1FE = 0x55 from hs.1, show mem 0x1FF = 0xAA from hs.2, ne_eq,
        not_true_eq_false, if_false, Option.getD_some]
      rw [hfun, mbrLoop_entries, List.range_eq_range']
    · have hfun : shownEntry mem disk.blksize.toNat = fun _ => none :=
        funext fun i => if_neg hs
      have hnil : (if mem 0x1FE ≠ 0x55 then none
          else if mem 0x1FF ≠ 0xAA then none
          else some (mbrLoop mem disk.blksize 4 0)) = none := by
        by_cases h1 : mem 0x1FE = 0x55
        · have h2 : mem 0x1FF ≠ 0xAA := fun h2 => hs ⟨h1, h2⟩
          rw [if_neg (not_not_intro h1), if_pos h2]
        · rw [if_pos h1]
      simp only [hnil, hfun]
      rfl

/-- An entry says which one it is. -/
theorem shownEntry_index {sector : Bytes} {sectorSize i : Nat} {entry : TableEntry}
    (h : shownEntry sector sectorSize i = some entry) : entry.index = i := by
  unfold shownEntry decodeEntry at h
  split at h
  · dsimp only at h
    split at h
    · cases h
      rfl
    · cases h
  · cases h

theorem heapEntry_index {heap : Option Bytes} {sectorSize i : Nat} {entry : TableEntry}
    (h : heapEntry heap sectorSize i = some entry) : entry.index = i := by
  unfold heapEntry at h
  obtain ⟨mem, -, hmem⟩ := Option.bind_eq_some_iff.mp h
  exact shownEntry_index hmem

/-- Two tables whose entries say which ones they are list the same only if they are the same. -/
theorem filterMap_eq_iff {f g : Nat → Option TableEntry}
    (hf : ∀ i e, f i = some e → e.index = i) (hg : ∀ i e, g i = some e → e.index = i)
    (l : List Nat) : l.filterMap f = l.filterMap g ↔ ∀ i ∈ l, f i = g i := by
  constructor
  · intro heq i hi
    have hmem : ∀ e, f i = some e ↔ g i = some e := by
      intro e
      constructor
      · intro he
        have hin : e ∈ l.filterMap g := heq ▸ List.mem_filterMap.mpr ⟨i, hi, he⟩
        obtain ⟨j, -, hj⟩ := List.mem_filterMap.mp hin
        rwa [← hg j e hj, hf i e he] at hj
      · intro he
        have hin : e ∈ l.filterMap f := heq ▸ List.mem_filterMap.mpr ⟨i, hi, he⟩
        obtain ⟨j, -, hj⟩ := List.mem_filterMap.mp hin
        rwa [← hf j e hj, hg i e he] at hj
    exact Option.ext hmem
  · intro h
    exact List.filterMap_congr h

/--
The list is the table of the disk exactly if, for each of the four entries, the block that
`AllocHeap` handed out happens to show what sector 0 shows.
-/
theorem listed_eq_table_iff (disk : Disk) (heap : Option Bytes) :
    listed disk heap = disk.table ↔
      ∀ i < 4, heapEntry heap disk.blksize.toNat i =
        shownEntry (disk.sector 0) disk.blksize.toNat i := by
  rw [listed_eq, Disk.table, filterMap_eq_iff (fun _ _ => heapEntry_index)
    (fun _ _ => shownEntry_index)]
  simp only [List.mem_range]

/-- Sector 0 of a disk with one bootable partition, of 2 sectors from sector 1 on -/
def oneEntry : Bytes := fun i =>
  if i = 446 then 128 else if i = 454 then 1 else if i = 458 then 2
  else if i = 510 then 85 else if i = 511 then 170 else 0

/-- No disk decides the list: a block of zeroes lists nothing, another lists a partition. -/
theorem listed_of_heap (disk : Disk) :
    ∃ mem mem' : Bytes, listed disk (some mem) = [] ∧ listed disk (some mem') ≠ [] := by
  refine ⟨fun _ => 0, oneEntry, ?_, ?_⟩
  · rw [listed_eq]
    rfl
  · have hfirst : heapEntry (some oneEntry) disk.blksize.toNat 0 =
        some ⟨0, 1 * disk.blksize.toNat, 2 * disk.blksize.toNat, 0, true⟩ := rfl
    rw [listed_eq, List.range_succ_eq_map, List.filterMap_cons_some hfirst]
    exact List.cons_ne_nil _ _

/-- The disk has a partition, and the block that was allocated is all zeroes. -/
theorem listed_stale :
    listed ⟨fun _ => oneEntry, 512, by decide⟩ (some fun _ => 0) = [] ∧
      Disk.table ⟨fun _ => oneEntry, 512, by decide⟩ = [⟨0, 512, 1024, 0, true⟩] := by
  decide

end Nolrem.Dev
