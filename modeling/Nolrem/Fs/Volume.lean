import Mathlib.Tactic.Common
import Nolrem.Word

/-!
# FAT volumes

`struct fat` of `kernel/fs/fat/fat_private.h`, `fat_table_capacity` and `fat_mount` of
`kernel/fs/fat/fat_core.c`, and `fat_cluster_to_byte` of `kernel/fs/fat/fat_table.c`. A `uint32_t` is
a `Nat` below `2 ^ 32`, with the operators of `Nolrem.Word`. The sums in `uint64_t` stay below
`2 ^ 42`, so they are sums of natural numbers.
-/

namespace Nolrem.Fs

/-! ## The data -/

/-- Bytes by their offset: of a sector, or of a volume -/
abbrev Bytes := Nat → UInt8

/-- `FAT_TYPE_12`, `FAT_TYPE_16` and `FAT_TYPE_32` -/
inductive FatType where
  | fat12
  | fat16
  | fat32
deriving DecidableEq, Repr

/-- The status codes of the driver but `0`. `FAT_END` is one of them. -/
inductive Status where
  | enotsup
  | enomem
  | eio
  | enoent
  | einval
  | fatEnd
  | disk (code : Nat)
deriving DecidableEq, Repr

/-- `FAT_SECTOR_SIZE` -/
def sectorSize : Nat := 512

/-- `FAT_ENTRY_SIZE` -/
def entrySize : Nat := 32

/-- `Le16` -/
def le16 (p : Bytes) (i : Nat) : Nat := (p i).toNat + 256 * (p (i + 1)).toNat

/-- `Le32` -/
def le32 (p : Bytes) (i : Nat) : Nat := le16 p i + 65536 * le16 p (i + 2)

theorem le16_lt (p : Bytes) (i : Nat) : le16 p i < 65536 := by
  have h0 := (p i).toNat_lt
  have h1 := (p (i + 1)).toNat_lt
  unfold le16
  omega

theorem le32_lt (p : Bytes) (i : Nat) : le32 p i < 4294967296 := by
  have h0 := le16_lt p i
  have h1 := le16_lt p (i + 2)
  unfold le32
  omega

/-- `struct fat`, but for what changes after the volume is mounted -/
structure Fat where
  type : FatType
  sectorsPerCluster : Nat
  clusterBytes : Nat
  rootCluster : Nat
  rootDirStartSector : Nat
  rootDirSectors : Nat
  dataStartSector : Nat
  maxCluster : Nat
  fatStartSector : Nat
  fatSectors : Nat
deriving DecidableEq, Repr

/-! ## The capacity of a table -/

/-- The first loop of `fat_table_capacity` -/
def climb (fatBytes n : Nat) : Nat :=
  if n + 1 + (n + 1) / 2 + 2 ≤ fatBytes then climb fatBytes (n + 1) else n
termination_by fatBytes - n

/-- The second loop of `fat_table_capacity`. It stops at `0`, whose entry fits in two bytes. -/
def descend (fatBytes : Nat) : Nat → Nat
  | 0 => 0
  | n + 1 => if n + 1 + (n + 1) / 2 + 2 > fatBytes then descend fatBytes n else n + 1

/-- `fat_table_capacity` -/
def fatTableCapacity (type : FatType) (fatBytes : Nat) : Nat :=
  match type with
  | .fat16 => fatBytes / 2 - 1
  | .fat32 => fatBytes / 4 - 1
  | .fat12 => descend fatBytes (climb fatBytes ((fatBytes - 2) * 2 / 3))

/-! ## The boot sector -/

/-- `bytes_per_sector` -/
def bytesPerSector (boot : Bytes) : Nat := le16 boot 11

/-- `sectors_per_cluster` -/
def sectorsPerCluster (boot : Bytes) : Nat := (boot 13).toNat

/-- `reserved_sectors` -/
def reservedSectors (boot : Bytes) : Nat := le16 boot 14

/-- `fat_count` -/
def fatCount (boot : Bytes) : Nat := (boot 16).toNat

/-- `root_entries` -/
def rootEntries (boot : Bytes) : Nat := le16 boot 17

/-- `total_sectors` -/
def totalSectors (boot : Bytes) : Nat :=
  if le16 boot 19 = 0 then le32 boot 32 else le16 boot 19

/-- `media` -/
def media (boot : Bytes) : Nat := (boot 21).toNat

/-- `is_fat32` -/
def isFat32 (boot : Bytes) : Bool := le16 boot 22 = 0

/-- `fat_sectors` -/
def fatSectors (boot : Bytes) : Nat :=
  if isFat32 boot then le32 boot 36 else le16 boot 22

/-- `ext_flags` -/
def extFlags (boot : Bytes) : Nat := le16 boot 40

/-- `version` -/
def version (boot : Bytes) : Nat := le16 boot 42

/-- `root_cluster` -/
def rootCluster (boot : Bytes) : Nat := if isFat32 boot then le32 boot 44 else 0

/-- Only one copy of the FAT is kept up to date: `ext_flags & 0x80`. -/
def oneActiveFat (boot : Bytes) : Bool := isFat32 boot && extFlags boot / 128 % 2 = 1

/-- `active_fat` -/
def activeFat (boot : Bytes) : Nat := if oneActiveFat boot then extFlags boot % 16 else 0

/-- The bytes of the fixed root directory, rounded up as far as the division needs -/
def rootDirBytes (boot : Bytes) : Nat :=
  wsub (wadd (wmul (rootEntries boot) entrySize) sectorSize) 1

/-- `root_dir_sectors` -/
def rootDirSectors (boot : Bytes) : Nat :=
  if isFat32 boot then 0 else rootDirBytes boot / sectorSize

/-- `root_dir_start`, a `uint64_t` -/
def rootDirStart (boot : Bytes) : Nat := reservedSectors boot + fatCount boot * fatSectors boot

/-- `data_start`, a `uint64_t` -/
def dataStart (boot : Bytes) : Nat := rootDirStart boot + rootDirSectors boot

/-- `cluster_count`, once `data_start` is known to be less than `total_sectors` -/
def clusterCount (boot : Bytes) : Nat :=
  (totalSectors boot - dataStart boot) / sectorsPerCluster boot

/-- `type` -/
def fatType (boot : Bytes) : FatType :=
  if isFat32 boot then .fat32 else if clusterCount boot < 4085 then .fat12 else .fat16

/-- `type_limit` -/
def typeLimit : FatType → Nat
  | .fat12 => 0xFF6
  | .fat16 => 0xFFF6
  | .fat32 => 0x0FFFFFF6

/-- `max_cluster`, a `uint64_t` -/
def maxCluster (boot : Bytes) : Nat :=
  min (min (clusterCount boot + 1) (typeLimit (fatType boot)))
    (fatTableCapacity (fatType boot) (fatSectors boot * sectorSize))

/-- `fat_start_sector` -/
def fatStartSector (boot : Bytes) : Nat :=
  wadd (reservedSectors boot) (wmul (activeFat boot) (fatSectors boot))

/-- The volume that `fat_mount` fills in. The assignments narrow to `uint32_t`. -/
def mounted (boot : Bytes) : Fat where
  type := fatType boot
  sectorsPerCluster := sectorsPerCluster boot
  clusterBytes := wmul (sectorsPerCluster boot) sectorSize
  rootCluster := rootCluster boot
  rootDirStartSector := rootDirStart boot % wordSize
  rootDirSectors := rootDirSectors boot
  dataStartSector := dataStart boot % wordSize
  maxCluster := maxCluster boot % wordSize
  fatStartSector := fatStartSector boot
  fatSectors := fatSectors boot

/--
`fat_mount` on a disk with this `st_blksize`. `boot` is what the read of the boot sector gives, and
`allocs` what `AllocHeap` answers.
-/
def fatMount (blockSize : Nat) (boot : Option Bytes) (allocs : Bool) : Except Status Fat :=
  if blockSize = 0 ∨ sectorSize % blockSize ≠ 0 then .error .enotsup
  else
    match boot with
    | none => .error .enotsup
    | some boot =>
      if boot 510 ≠ 0x55 ∨ boot 511 ≠ 0xAA then .error .enotsup
      else if boot 0 ≠ 0xEB ∧ boot 0 ≠ 0xE9 then .error .enotsup
      else if media boot ≠ 0xF0 ∧ media boot < 0xF8 then .error .enotsup
      else if bytesPerSector boot ≠ sectorSize then .error .enotsup
      else if sectorsPerCluster boot = 0 ∨
          sectorsPerCluster boot &&& (sectorsPerCluster boot - 1) ≠ 0 then .error .enotsup
      else if isFat32 boot ∧ version boot ≠ 0 then .error .enotsup
      else if oneActiveFat boot ∧ fatCount boot ≤ activeFat boot then .error .enotsup
      else if ¬isFat32 boot ∧ rootEntries boot = 0 then .error .enotsup
      else if reservedSectors boot = 0 ∨ fatCount boot = 0 ∨ fatSectors boot = 0 then
        .error .enotsup
      else if totalSectors boot ≤ dataStart boot then .error .enotsup
      else if maxCluster boot < 2 then .error .enotsup
      else if isFat32 boot ∧ (rootCluster boot < 2 ∨ maxCluster boot < rootCluster boot) then
        .error .enotsup
      else if allocs then .ok (mounted boot)
      else .error .enomem

/-! ## Entries and clusters -/

/-- The byte offset of an entry within the FAT, a `uint32_t` -/
def entryOffset (type : FatType) (cluster : Nat) : Nat :=
  match type with
  | .fat12 => wadd cluster (cluster / 2)
  | .fat16 => wmul cluster 2
  | .fat32 => wmul cluster 4

/-- How many bytes an entry is looked at in -/
def entryLength : FatType → Nat
  | .fat12 => 2
  | .fat16 => 2
  | .fat32 => 4

/-- How many bytes of an entry are in its first sector -/
def firstPart (type : FatType) (cluster : Nat) : Nat :=
  min (entryLength type) (wsub sectorSize (entryOffset type cluster % sectorSize))

/-- The sector of the volume that `fat_cache_get` reads for a sector of the FAT -/
def Fat.fatSector (fat : Fat) (sector : Nat) : Nat := wadd fat.fatStartSector sector

/-- The sector of the volume that a cluster starts at: in `fat_cluster_to_byte`, a `uint64_t` -/
def Fat.clusterSector (fat : Fat) (cluster : Nat) : Nat :=
  fat.dataStartSector + wsub cluster 2 * fat.sectorsPerCluster

/-- `fat_cluster_to_byte` -/
def Fat.clusterToByte (fat : Fat) (cluster : Nat) : Nat := fat.clusterSector cluster * sectorSize

end Nolrem.Fs
