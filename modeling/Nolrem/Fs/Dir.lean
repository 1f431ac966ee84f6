import Nolrem.Fs.File

/-!
# Directories

`kernel/fs/fat/fat_dir.c`. A C string is the list of its bytes without the zero at the end.
-/

namespace Nolrem.Fs

/-! ## Names -/

/-- `FatToUpper` -/
def fatToUpper (c : UInt8) : UInt8 := if 97 ≤ c ∧ c ≤ 122 then c - 32 else c

/-- `FatToLower` -/
def fatToLower (c : UInt8) : UInt8 := if 65 ≤ c ∧ c ≤ 90 then c + 32 else c

/-- `FatNameEquals` -/
def fatNameEquals : List UInt8 → List UInt8 → Bool
  | a :: as, b :: bs => if fatToUpper a ≠ fatToUpper b then false else fatNameEquals as bs
  | [], [] => true
  | _, _ => false

/-- `FatEntryVisible` -/
def fatEntryVisible (entry : Bytes) : Bool :=
  if entry 0 = 0xE5 then false
  else if entry 11 &&& 0x3F = 0x0F then false
  else if entry 11 &&& 0x08 ≠ 0 then false
  else true

/-- The loops of `FatEntryName` that leave out the spaces at the end of a field -/
def trimmed (entry : Bytes) (start : Nat) : Nat → Nat
  | 0 => 0
  | n + 1 => if entry (start + n) = 32 then trimmed entry start n else n + 1

/-- The loops of `FatEntryName` that copy a field -/
def nameField (entry : Bytes) (lower : Bool) (start length : Nat) : List UInt8 :=
  (List.range length).map fun i =>
    let c := if start + i = 0 ∧ entry 0 = 0x05 then 0xE5 else entry (start + i)
    if lower then fatToLower c else c

/-- `FatEntryName`. What is after a zero byte is not seen. -/
def fatEntryName (entry : Bytes) : List UInt8 :=
  let lowerName := decide (entry 12 &&& 0x08 ≠ 0)
  let lowerExt := decide (entry 12 &&& 0x10 ≠ 0)
  let nameLength := trimmed entry 0 8
  let extLength := trimmed entry 8 3
  let name := nameField entry lowerName 0 nameLength
  let ext := if 0 < extLength then 46 :: nameField entry lowerExt 8 extLength else []
  (name ++ ext).takeWhile (· ≠ 0)

/-! ## Entries -/

/-- `struct fat_node_info` -/
structure NodeInfo where
  firstCluster : Nat
  size : Nat
  directory : Bool
  ino : Nat
deriving DecidableEq, Repr

/-- `FAT_ROOT_INO` -/
def fatRootIno : Nat := 1

/-- `fat_make_ino`. `position` is a `uint64_t`. -/
def fatMakeIno (fat : Fat) (firstCluster : Nat) (directory : Bool) (position : Nat) : Nat :=
  if directory ∧ firstCluster = fat.rootCluster then fatRootIno
  else if firstCluster ≠ 0 then wadd firstCluster 1
  else 2147483648 + position % wordSize % 2147483648

/-- The first cluster of an entry, of which the high half is only valid on FAT32 -/
def rawFirstCluster (fat : Fat) (entry : Bytes) : Nat :=
  if fat.type = .fat32 then le16 entry 26 + 65536 * le16 entry 20 else le16 entry 26

/-- `fat_decode_entry` -/
def fatDecodeEntry (fat : Fat) (entry : Bytes) (position : Nat) : NodeInfo :=
  let directory := decide (entry 11 &&& 0x10 ≠ 0)
  let firstCluster :=
    if directory ∧ rawFirstCluster fat entry = 0 then fat.rootCluster
    else rawFirstCluster fat entry
  { firstCluster := firstCluster
    size := if directory then 0 else le32 entry 28
    directory := directory
    ino := fatMakeIno fat firstCluster directory position }

/-- A raw entry of a directory and its position on the volume, in entries -/
structure DirEntry where
  bytes : Bytes
  position : Nat

/-- The copy of an entry that `fat_dir_scan` makes -/
def entryAt (buffer : Bytes) (i : Nat) : Bytes :=
  fun j => if j < entrySize then buffer (i * entrySize + j) else 0

/-! ## Walking through a directory -/

/-- `FAT_MAX_DIR_SECTORS` -/
def maxDirSectors : Nat := 4096

/-- `FAT_ENTRIES_PER_SECTOR` -/
def entriesPerSector : Nat := 16

/-- `struct fat_dir_cursor` -/
structure DirCursor where
  fixedRoot : Bool
  sector : Nat
  cluster : Nat
  sectorInCluster : Nat
  advance : Bool
deriving DecidableEq, Repr

/-- `fat_dir_start` -/
def fatDirStart (fat : Fat) (dirCluster : Nat) : Except Status DirCursor :=
  if dirCluster ≠ 0 ∧ (dirCluster < 2 ∨ fat.maxCluster < dirCluster) then .error .eio
  else
    .ok
      { fixedRoot := dirCluster = 0
        sector := 0
        cluster := dirCluster
        sectorInCluster := 0
        advance := false }

namespace FatState

/-- `fat_disk_read` of a sector of a directory -/
def readSector (dev : Device) (s : FatState) (byte : Nat) : Except Status Bytes × FatState :=
  match dev.readStatus s.requests sectorSize with
  | some status => (.error status, s.asked)
  | none => (.ok (dev.readBuffer s.requests sectorSize byte), s.asked)

/-- The part of `fat_dir_next_sector` that follows the chain, if the cluster is used up -/
def fatDirAdvance (fat : Fat) (dev : Device) (s : FatState) (cursor : DirCursor) :
    Except Status DirCursor × FatState :=
  if cursor.advance then
    match s.fatNextCluster fat dev cursor.cluster with
    | (.error status, s) => (.error status, s)
    | (.ok next, s) =>
      (.ok { cursor with cluster := next, sectorInCluster := 0, advance := false }, s)
  else (.ok cursor, s)

/-- `fat_dir_next_sector`: the sector, where it is on the volume, and the cursor after it -/
def fatDirNextSector (fat : Fat) (dev : Device) (s : FatState) (cursor : DirCursor) :
    Except Status (Bytes × Nat × DirCursor) × FatState :=
  if maxDirSectors ≤ cursor.sector then (.error .fatEnd, s)
  else if cursor.fixedRoot then
    if fat.rootDirSectors ≤ cursor.sector then (.error .fatEnd, s)
    else
      let byte := wadd fat.rootDirStartSector cursor.sector * sectorSize
      match s.readSector dev byte with
      | (.error status, s) => (.error status, s)
      | (.ok buffer, s) => (.ok (buffer, byte, { cursor with sector := cursor.sector + 1 }), s)
  else
    match s.fatDirAdvance fat dev cursor with
    | (.error status, s) => (.error status, s)
    | (.ok cursor, s) =>
      let byte := fat.clusterToByte cursor.cluster + cursor.sectorInCluster * sectorSize
      match s.readSector dev byte with
      | (.error status, s) => (.error status, s)
      | (.ok buffer, s) =>
        (.ok (buffer, byte,
          { cursor with
            sector := cursor.sector + 1
            sectorInCluster := cursor.sectorInCluster + 1
            advance := cursor.sectorInCluster + 1 = fat.sectorsPerCluster }), s)

end FatState

/-- What `fat_dir_scan` looks for: a name, or the entry with a number -/
inductive Search where
  | byName (target : List UInt8)
  | nth (n : Nat)
deriving DecidableEq, Repr

/-- `match` of `fat_dir_scan` -/
def Search.hit (search : Search) (seen : Nat) (entry : Bytes) : Bool :=
  match search with
  | .byName target => fatNameEquals target (fatEntryName entry)
  | .nth n => seen = n

/-- `seen` after an entry that is no match -/
def Search.next (search : Search) (seen : Nat) : Nat :=
  match search with
  | .byName _ => seen
  | .nth _ => seen + 1

/-- How the loop over the entries of a sector ends -/
inductive SectorScan where
  | found (i : Nat)
  | ended
  | more (seen : Nat)
deriving DecidableEq, Repr

/-- The inner loop of `fat_dir_scan`, over the last `fuel` entries of a sector -/
def scanSector (search : Search) (buffer : Bytes) : Nat → Nat → SectorScan
  | 0, seen => .more seen
  | fuel + 1, seen =>
    let i := entriesPerSector - (fuel + 1)
    if entryAt buffer i 0 = 0 then .ended
    else if fatEntryVisible (entryAt buffer i) = false then scanSector search buffer fuel seen
    else if search.hit seen (entryAt buffer i) then .found i
    else scanSector search buffer fuel (search.next seen)

namespace FatState

/-- Each sector that is read moves the cursor on. -/
theorem fatDirNextSector_lt {fat : Fat} {dev : Device} {s s' : FatState}
    {cursor cursor' : DirCursor} {buffer : Bytes} {byte : Nat}
    (h : s.fatDirNextSector fat dev cursor = (.ok (buffer, byte, cursor'), s')) :
    cursor.sector < maxDirSectors ∧ cursor'.sector = cursor.sector + 1 := by
  unfold fatDirNextSector at h
  by_cases hmax : maxDirSectors ≤ cursor.sector
  · rw [if_pos hmax] at h
    cases h
  rw [if_neg hmax] at h
  refine ⟨not_le.mp hmax, ?_⟩
  by_cases hfixed : cursor.fixedRoot = true
  · rw [if_pos hfixed] at h
    by_cases hroot : fat.rootDirSectors ≤ cursor.sector
    · rw [if_pos hroot] at h
      cases h
    rw [if_neg hroot] at h
    dsimp only at h
    split at h
    · cases h
    · cases h
      rfl
  · rw [if_neg hfixed] at h
    split at h
    · cases h
    · rename_i moved s1 hmoved
      have hsector : moved.sector = cursor.sector := by
        unfold fatDirAdvance at hmoved
        split at hmoved
        · split at hmoved
          · cases hmoved
          · cases hmoved
            rfl
        · cases hmoved
          rfl
      dsimp only at h
      split at h
      · cases h
      · cases h
        exact congrArg (· + 1) hsector

/-- The outer loop of `fat_dir_scan` -/
def fatDirLoop (fat : Fat) (dev : Device) (search : Search) (s : FatState) (cursor : DirCursor)
    (seen : Nat) : Except Status DirEntry × FatState :=
  match _hnext : s.fatDirNextSector fat dev cursor with
  | (.error .fatEnd, s) => (.error .enoent, s)
  | (.error status, s) => (.error status, s)
  | (.ok (buffer, byte, cursor'), s) =>
    match scanSector search buffer entriesPerSector seen with
    | .found i =>
      (.ok ⟨entryAt buffer i, byte / sectorSize * entriesPerSector + i⟩, s)
    | .ended => (.error .enoent, s)
    | .more seen => fatDirLoop fat dev search s cursor' seen
termination_by maxDirSectors - cursor.sector
decreasing_by
  have hlt := fatDirNextSector_lt _hnext
  omega

/-- `fat_dir_scan` -/
def fatDirScan (fat : Fat) (dev : Device) (s : FatState) (dirCluster : Nat) (search : Search) :
    Except Status DirEntry × FatState :=
  match fatDirStart fat dirCluster with
  | .error status => (.error status, s)
  | .ok cursor => fatDirLoop fat dev search s cursor 0

/-- `fat_follow` -/
def fatFollow (fat : Fat) (dev : Device) (s : FatState) (dirCluster : Nat) (name : List UInt8) :
    Except Status NodeInfo × FatState :=
  if 12 < name.length then (.error .enoent, s)
  else
    match s.fatDirScan fat dev dirCluster (.byName name) with
    | (.error status, s) => (.error status, s)
    | (.ok entry, s) => (.ok (fatDecodeEntry fat entry.bytes entry.position), s)

end FatState

/-! ## Listing -/

/-- `struct dirent` -/
structure Dirent where
  ino : Nat
  name : List UInt8
  type : Nat
  disk : Nat
deriving DecidableEq, Repr

/-- `sizeof(struct dirent)` -/
def direntSize : Nat := 268

/-- `DT_REG` and `DT_DIR` -/
def direntType (directory : Bool) : Nat := if directory then 5 else 4

/-- A byte of a number that is stored with its least significant byte first -/
def byteOf (n : Nat) : Nat → UInt8
  | 0 => UInt8.ofNat n
  | i + 1 => byteOf (n / 256) i

/-- The bytes of a `struct dirent`, with the two bytes of padding before `d_disk` -/
def Dirent.bytes (dir : Dirent) : Bytes := fun i =>
  if i < 4 then byteOf dir.ino i
  else if i < 260 then dir.name.getD (i - 4) 0
  else if i = 260 then byteOf dir.name.length 0
  else if i = 261 then byteOf dir.type 0
  else if i < 264 then 0
  else byteOf dir.disk (i - 264)

/-- The directory entry that stands for `"."` in the root directory -/
def dotDirent (disk : Nat) : Dirent := ⟨fatRootIno, [46], direntType true, disk % wordSize⟩

/-- What is told of an entry. `disk` is the `st_dev` of the disk. -/
def DirEntry.dirent (fat : Fat) (disk : Nat) (entry : DirEntry) : Dirent :=
  let info := fatDecodeEntry fat entry.bytes entry.position
  ⟨info.ino, fatEntryName entry.bytes, direntType info.directory, disk % wordSize⟩

namespace FatState

/-- The part of `fat_read_directory_entry_sync` that looks for an entry on the disk. Its number is
narrowed to a `uint32_t`. -/
def fatReadEntryNumber (fat : Fat) (dev : Device) (copies : Nat → Nat → Bool) (disk : Nat)
    (s : FatState) (dirCluster entryNumber : Nat) (io : Transfer) :
    Option Status × FatState × Transfer :=
  match s.fatDirScan fat dev dirCluster (.nth (entryNumber % wordSize)) with
  | (.error .enoent, s) => (none, s, io)
  | (.error status, s) => (some status, s, io)
  | (.ok entry, s) =>
    let copied := performTransfer copies (entry.dirent fat disk).bytes io direntSize
    (copied.1, s, copied.2)

/-- `fat_read_directory_entry_sync` -/
def fatReadDirectoryEntrySync (fat : Fat) (dev : Device) (copies : Nat → Nat → Bool) (disk : Nat)
    (s : FatState) (dirCluster : Nat) (io : Transfer) : Option Status × FatState × Transfer :=
  if io.offset % direntSize ≠ 0 then (some .einval, s, io)
  else
    let entryNumber := io.offset / direntSize
    if dirCluster = fat.rootCluster then
      if entryNumber = 0 then
        let copied := performTransfer copies (dotDirent disk).bytes io direntSize
        (copied.1, s, copied.2)
      else fatReadEntryNumber fat dev copies disk s dirCluster (entryNumber - 1) io
    else fatReadEntryNumber fat dev copies disk s dirCluster entryNumber io

end FatState

end Nolrem.Fs
