import Nolrem.Vfs.Mount

/-!
# Which filesystem a partition gets

`RegisterFilesystem` and `MountFilesystemForDisk` of `kernel/fs/filesystem.c`, with `Create` and
`Follow` of `kernel/dev/partition.c` and `GenerateNewMountedDiskName` of `kernel/vfs/diskutil.c`.
A variable that the source does not initialise has the value that the stack happens to have.
-/

namespace Nolrem.Vfs.Registry

/-- `EALREADY` -/
def ealready : Nat := 4

/-! ## The code -/

/-- `struct filesystem`. A creator fails, or it returns 0 and the root file. -/
structure Filesystem where
  name : Name
  mountCreator : Nat → Option Nat

/-- `RegisterFilesystem`, which takes the table from the front. -/
def registerFilesystem (registered : List Filesystem) (fs : Filesystem) : List Filesystem :=
  fs :: registered

/-- `partitionFs` is the `fs` of the data of a partition; 0 is `NULL`. -/
structure DiskState where
  vfs : MountState
  partitionFs : Nat → Nat
  nextMountedDiskNum : Nat

/-- What the heap answers: for the file of the partition, for the name, and in `Mount` -/
structure DiskAnswers where
  fsFile : Option Nat
  name : Bool
  mount : MountAnswers

/-- The file of a partition, as `CreateFile` leaves it -/
def DiskState.setFs (st : DiskState) (partition file node : Nat) : DiskState :=
  { st with
    vfs := createFile st.vfs file node
    partitionFs := Function.update st.partitionFs partition file }

/-- `Create` of a partition. Without memory there is still no file, and no error. -/
def create (st : DiskState) (fsFile : Option Nat) (partition node : Nat) : DiskState × Nat :=
  if st.partitionFs partition ≠ 0 then (st, ealready)
  else
    match fsFile with
    | none => (st, 0)
    | some file => (st.setFs partition file node, 0)

/-- `Follow` of a partition -/
def follow (st : DiskState) (partition : Nat) (name : Name) : Except Nat Nat :=
  if name = ['f', 's'] then
    if st.partitionFs partition = 0 then .error einval
    else .ok (st.vfs.files (st.partitionFs partition)).node
  else .error einval

/-- A digit of `AppendNumberToString` -/
def digit (d : Nat) : Char := Char.ofNat (48 + d)

/-- `AppendNumberToString` -/
def appendNumberToString (str : Name) (num : Nat) : Name :=
  if 1000 ≤ num then str
  else if num < 10 then str ++ [digit num]
  else if num < 100 then str ++ [digit (num / 10), digit (num % 10)]
  else str ++ [digit (num / 100), digit (num / 10 % 10), digit (num % 10)]

/-- The name with that number -/
def diskName (num : Nat) : Name := appendNumberToString ['d', 'r', 'v'] num

/-- `GenerateNewMountedDiskName`. `KeStrdup` may fail. -/
def generateNewMountedDiskName (st : DiskState) (allocs : Bool) : Option Name × DiskState :=
  (if allocs then some (diskName st.nextMountedDiskNum) else none,
    { st with nextMountedDiskNum := st.nextMountedDiskNum + 1 })

/-- The loop over the table: the filesystems that were asked, and `file_out` after it -/
def callCreators (partition fileOut : Nat) : List Filesystem → List Filesystem × Nat
  | [] => ([], fileOut)
  | fs :: next =>
    match fs.mountCreator partition with
    | some file => ([fs], file)
    | none =>
      let (called, fileOut) := callCreators partition fileOut next
      (fs :: called, fileOut)

/-- What a call did: the filesystems it asked, and the files it looked into -/
structure MountOutcome where
  called : List Filesystem
  used : List Nat
  st : DiskState
  status : Nat

/-- `MountFilesystemForDisk`. `garbage` is what `file_out` is before it is set. -/
def mountFilesystemForDisk (registered : List Filesystem) (garbage : Nat) (ans : DiskAnswers)
    (st : DiskState) (partition : Nat) : MountOutcome :=
  let (called, fileOut) := callCreators partition garbage registered
  if fileOut = 0 then ⟨called, [], st, enodev⟩
  else
    let (st, res) := create st ans.fsFile partition (st.vfs.files fileOut).node
    if res ≠ 0 then ⟨called, [fileOut], st, res⟩
    else
      let (name, st) := generateNewMountedDiskName st ans.name
      let (vfs, res) := mount st.vfs ans.mount (st.vfs.files fileOut).node name
      ⟨called, [fileOut, fileOut], { st with vfs }, res⟩

/-! ## What it is for -/

/-- The first filesystem that takes the partition, those before it, and its root file -/
def firstRoot (partition : Nat) (registered : List Filesystem) : Option Nat :=
  registered.findSome? fun fs => fs.mountCreator partition

/-- The root is mounted under a name that was free, and it is the file system of the partition. -/
structure MountedRoot (st : DiskState) (partition root : Nat) (r : MountOutcome) : Prop where
  status : r.status = 0
  mounted : ∃ name, getMountPointFromName st.vfs.mountedFileList name = none ∧
    mountedNode r.st.vfs name = some (st.vfs.files root).node ∧
    ∃ m, r.st.vfs.mountedFileList = m :: st.vfs.mountedFileList
  follow : follow r.st partition ['f', 's'] = .ok (st.vfs.files root).node
  others : ∀ p ≠ partition, r.st.partitionFs p = st.partitionFs p
  up : r.st.vfs.crashed = false

/-- The creators are called in order up to the first that succeeds, and its root is mounted. If
none does, nothing changes. -/
structure MountsFirst (registered : List Filesystem) (st : DiskState) (partition : Nat)
    (r : MountOutcome) : Prop where
  called : ∃ rest, registered = r.called ++ rest ∧
    (firstRoot partition registered = none → rest = []) ∧
    ∀ fs ∈ r.called.dropLast, fs.mountCreator partition = none
  succeeds : ∀ root, firstRoot partition registered = some root →
    (∃ fs ∈ r.called.getLast?, fs.mountCreator partition = some root) ∧
      MountedRoot st partition root r
  fails : firstRoot partition registered = none → r.status = enodev ∧ r.st = st
  used : ∀ p ∈ r.used, ∃ fs ∈ r.called, fs.mountCreator partition = some p

/-- A creator that succeeds returns an open file, and the heap returns blocks that are not in
use. -/
structure ValidCall (registered : List Filesystem) (ans : DiskAnswers) (st : DiskState)
    (partition : Nat) : Prop where
  root : ∀ fs ∈ registered, ∀ file, fs.mountCreator partition = some file →
    file ≠ 0 ∧ (st.vfs.files file).node ≠ 0 ∧ ans.fsFile ≠ some file ∧ ans.mount.file ≠ some file
  fsFile : ∀ file, ans.fsFile = some file → file ≠ 0 ∧ ans.mount.file ≠ some file
  up : st.vfs.crashed = false

/-! ## The loop -/

variable {registered : List Filesystem} {partition garbage : Nat} {st : DiskState}
  {ans : DiskAnswers}

/-- After the loop `file_out` is the first root, if there is one. -/
theorem callCreators_fileOut (partition garbage : Nat) (registered : List Filesystem) :
    (callCreators partition garbage registered).2 =
      (firstRoot partition registered).getD garbage := by
  unfold firstRoot
  induction registered with
  | nil => rfl
  | cons fs next ih =>
    rw [callCreators, List.findSome?_cons]
    cases fs.mountCreator partition with
    | none => exact ih
    | some file => rfl

theorem callCreators_called (partition garbage : Nat) (registered : List Filesystem) :
    ∃ rest, registered = (callCreators partition garbage registered).1 ++ rest ∧
      (firstRoot partition registered = none → rest = []) ∧
      ∀ fs ∈ (callCreators partition garbage registered).1.dropLast,
        fs.mountCreator partition = none := by
  unfold firstRoot
  induction registered with
  | nil => exact ⟨[], rfl, fun _ => rfl, nofun⟩
  | cons fs next ih =>
    rw [callCreators, List.findSome?_cons]
    cases hfs : fs.mountCreator partition with
    | some file => exact ⟨next, rfl, nofun, nofun⟩
    | none =>
      obtain ⟨rest, heq, hall, hfail⟩ := ih
      refine ⟨rest, congrArg (fs :: ·) heq, hall, fun fs' hfs' => ?_⟩
      dsimp only at hfs'
      cases hc : (callCreators partition garbage next).1 with
      | nil =>
        rw [hc] at hfs'
        exact absurd hfs' List.not_mem_nil
      | cons first others =>
        rw [hc, List.dropLast_cons_cons] at hfs'
        rcases List.mem_cons.mp hfs' with rfl | hin
        · exact hfs
        · exact hfail fs' (hc ▸ hin)

/-- The last filesystem that is called is the one that succeeds. -/
theorem callCreators_last (garbage : Nat) {root : Nat}
    (h : firstRoot partition registered = some root) :
    ∃ fs ∈ (callCreators partition garbage registered).1.getLast?,
      fs.mountCreator partition = some root := by
  unfold firstRoot at h
  induction registered with
  | nil => cases h
  | cons fs next ih =>
    rw [callCreators]
    rw [List.findSome?_cons] at h
    cases hfs : fs.mountCreator partition with
    | some file =>
      rw [hfs] at h
      exact ⟨fs, rfl, hfs.trans h⟩
    | none =>
      rw [hfs] at h
      obtain ⟨fs', hlast, hroot⟩ := ih h
      refine ⟨fs', ?_, hroot⟩
      rw [Option.mem_def] at hlast ⊢
      rw [List.getLast?_cons, hlast]
      rfl

/-! ## The name -/

theorem digit_valid {d : Nat} (h : d < 10) :
    (digit d = '/' || digit d = '\\' || digit d = ':') = false := by
  revert d
  decide

/-- A name that is generated may be mounted. -/
theorem diskName_valid (num : Nat) :
    (diskName num).length < maxComponentLength ∧ checkValidComponentName (diskName num) = 0 := by
  unfold diskName appendNumberToString checkValidComponentName
  split_ifs with h1000 h10 h100 <;>
    simp_all [maxComponentLength, digit_valid, Nat.mod_lt, Nat.div_lt_iff_lt_mul]

/-! ## The call -/

/-- When `Mount` succeeds under a generated name -/
theorem mount_diskName_iff {vfs : MountState} (answers : MountAnswers) {node : Nat} (num : Nat)
    (hup : vfs.crashed = false) (hnode : node ≠ 0) :
    (mount vfs answers node (some (diskName num))).2 = 0 ∧
        (mount vfs answers node (some (diskName num))).1.crashed = false ↔
      answers.lock = 0 ∧ getMountPointFromName vfs.mountedFileList (diskName num) = none ∧
        answers.entry.isSome ∧ answers.file.isSome := by
  obtain ⟨hlen, hvalid⟩ := diskName_valid num
  unfold mount
  dsimp only
  rw [if_neg hnode, if_neg (by omega), if_neg (by rw [hvalid]; decide)]
  by_cases hlock : answers.lock = 0
  · rw [if_neg (not_not.mpr hlock)]
    cases hget : getMountPointFromName vfs.mountedFileList (diskName num) with
    | some m => simp [eexist]
    | none =>
      rw [if_neg (by decide)]
      cases answers.entry with
      | none => simp [enomem]
      | some addr =>
        cases answers.file with
        | none => simp
        | some file => simp [refFile, createFile, hup, hlock]
  · rw [if_pos hlock]
    simp [hlock]

/-- A call after a creator succeeded -/
theorem mountFilesystemForDisk_of_root {root : Nat} (hroot : root ≠ 0)
    (h : firstRoot partition registered = some root) :
    mountFilesystemForDisk registered garbage ans st partition =
      let called := (callCreators partition garbage registered).1
      let (st, res) := create st ans.fsFile partition (st.vfs.files root).node
      if res ≠ 0 then ⟨called, [root], st, res⟩
      else
        let (name, st) := generateNewMountedDiskName st ans.name
        let (vfs, res) := mount st.vfs ans.mount (st.vfs.files root).node name
        ⟨called, [root, root], { st with vfs }, res⟩ := by
  have hout := callCreators_fileOut partition garbage registered
  rw [h, Option.getD_some] at hout
  unfold mountFilesystemForDisk
  rw [← Prod.eta (callCreators partition garbage registered), hout]
  dsimp only
  rw [if_neg hroot]

/-- A call when no creator did -/
theorem mountFilesystemForDisk_of_none (h : firstRoot partition registered = none)
    (h0 : garbage = 0) :
    mountFilesystemForDisk registered garbage ans st partition =
      ⟨(callCreators partition garbage registered).1, [], st, enodev⟩ := by
  have hout := callCreators_fileOut partition garbage registered
  rw [h, Option.getD_none, h0] at hout
  unfold mountFilesystemForDisk
  rw [← Prod.eta (callCreators partition garbage registered), h0, hout]
  rfl

/-- The partition has no file system yet, its file and the name get memory, and `Mount` takes the
name. -/
structure MountRoom (ans : DiskAnswers) (st : DiskState) (partition : Nat) : Prop where
  empty : st.partitionFs partition = 0
  fsFile : ans.fsFile.isSome
  name : ans.name = true
  lock : ans.mount.lock = 0
  free : getMountPointFromName st.vfs.mountedFileList (diskName st.nextMountedDiskNum) = none
  entry : ans.mount.entry.isSome
  file : ans.mount.file.isSome

theorem create_some {file node : Nat} (h : st.partitionFs partition = 0) :
    create st (some file) partition node = (st.setFs partition file node, 0) :=
  if_neg (not_not.mpr h)

theorem create_none {node : Nat} (h : st.partitionFs partition = 0) :
    create st none partition node = (st, 0) :=
  if_neg (not_not.mpr h)

theorem create_of_ne {fsFile : Option Nat} {node : Nat} (h : st.partitionFs partition ≠ 0) :
    create st fsFile partition node = (st, ealready) :=
  if_pos h

theorem follow_fs_iff {node : Nat} :
    follow st partition ['f', 's'] = .ok node ↔
      st.partitionFs partition ≠ 0 ∧ (st.vfs.files (st.partitionFs partition)).node = node := by
  unfold follow
  rw [if_pos rfl]
  split
  · next h => exact iff_of_false nofun fun h' => h'.1 h
  · next h => exact ⟨fun he => ⟨h, Except.ok.inj he⟩, fun he => congrArg _ he.2⟩

/-- A call after a creator succeeded, for a partition that got a file -/
theorem mountFilesystemForDisk_created {root file : Nat} (h : ValidCall registered ans st partition)
    (hroot : firstRoot partition registered = some root) (hempty : st.partitionFs partition = 0)
    (hfile : ans.fsFile = some file) :
    let node := (st.vfs.files root).node
    let st' := st.setFs partition file node
    let name := if ans.name then some (diskName st.nextMountedDiskNum) else none
    mountFilesystemForDisk registered garbage ans st partition =
      ⟨(callCreators partition garbage registered).1, [root, root],
        { st' with
          vfs := (mount st'.vfs ans.mount node name).1
          nextMountedDiskNum := st.nextMountedDiskNum + 1 },
        (mount st'.vfs ans.mount node name).2⟩ := by
  obtain ⟨fs, hfs, hfsroot⟩ := List.exists_of_findSome?_eq_some hroot
  obtain ⟨hne, -, hfresh, -⟩ := h.root fs hfs root hfsroot
  have hother : root ≠ file := fun he => hfresh (he ▸ hfile)
  rw [mountFilesystemForDisk_of_root hne hroot, hfile, create_some hempty]
  dsimp only
  rw [if_neg (by decide)]
  have hnode : ((st.setFs partition file (st.vfs.files root).node).vfs.files root).node =
      (st.vfs.files root).node := by
    rw [DiskState.setFs, createFile]
    exact congrArg File.node (Function.update_of_ne hother ..)
  rw [generateNewMountedDiskName]
  dsimp only
  rw [hnode]
  rfl

/-- When the root is mounted -/
theorem mountedRoot_iff {root : Nat} (h : ValidCall registered ans st partition)
    (hroot : firstRoot partition registered = some root) :
    MountedRoot st partition root
        (mountFilesystemForDisk registered garbage ans st partition) ↔
      MountRoom ans st partition := by
  obtain ⟨fs, hfs, hfsroot⟩ := List.exists_of_findSome?_eq_some hroot
  obtain ⟨hne, hnode, hfresh, hfresh'⟩ := h.root fs hfs root hfsroot
  by_cases hempty : st.partitionFs partition = 0
  · cases hfile : ans.fsFile with
    | none =>
      -- there is no file to follow to
      refine iff_of_false (fun hm => ?_) fun hr => absurd hr.fsFile (by rw [hfile]; decide)
      have hfollow := (follow_fs_iff.mp hm.follow).1
      rw [mountFilesystemForDisk_of_root hne hroot, hfile, create_none hempty] at hfollow
      exact hfollow hempty
    | some file =>
      obtain ⟨hfile0, hfile'⟩ := h.fsFile file hfile
      rw [mountFilesystemForDisk_created h hroot hempty hfile]
      cases hname : ans.name with
      | false =>
        refine iff_of_false (fun hm => nomatch (hm.status : einval = 0)) fun hr => ?_
        have := hr.name
        rw [hname] at this
        cases this
      | true =>
        rw [if_pos rfl]
        have hup : (st.setFs partition file (st.vfs.files root).node).vfs.crashed = false := h.up
        have hiff := mount_diskName_iff ans.mount st.nextMountedDiskNum hup hnode
        constructor
        · intro hm
          obtain ⟨hlock, hfree, hentry, hmfile⟩ := hiff.mp ⟨hm.status, hm.up⟩
          exact ⟨hempty, by rw [hfile]; rfl, hname, hlock, hfree, hentry, hmfile⟩
        · intro hr
          obtain ⟨hs, hc⟩ := hiff.mpr ⟨hr.lock, hr.free, hr.entry, hr.file⟩
          obtain ⟨-, -, addr, -, ⟨-, heq⟩ | ⟨mfile, hmfile, heq⟩⟩ := mount_of_zero hs
          · rw [heq] at hc
            cases hc
          · have hdiff : file ≠ mfile := fun he => hfile' (he ▸ hmfile)
            refine ⟨hs, ⟨diskName st.nextMountedDiskNum, hr.free, ?_, ?_⟩, ?_, ?_, hc⟩
            · dsimp only
              rw [heq, mountedNode, getMountPointFromName, List.find?_cons_of_pos (by simp)]
              simp
            · dsimp only
              rw [heq]
              exact ⟨_, rfl⟩
            · have hfs : (st.setFs partition file (st.vfs.files root).node).partitionFs partition =
                  file := Function.update_self ..
              refine follow_fs_iff.mpr ⟨fun h0 => hfile0 (hfs.symm.trans h0), ?_⟩
              dsimp only
              rw [heq, hfs]
              dsimp only [DiskState.setFs, createFile]
              rw [Function.update_of_ne hdiff, Function.update_self]
            · exact fun p hp => Function.update_of_ne hp ..
  · refine iff_of_false (fun hm => ?_) fun hr => hempty hr.empty
    have hs := hm.status
    rw [mountFilesystemForDisk_of_root hne hroot, create_of_ne hempty] at hs
    dsimp only at hs
    rw [if_pos (by decide)] at hs
    cases hs

/-- Only what `callCreators` left in `file_out` is looked into. -/
theorem mountFilesystemForDisk_used :
    ∀ p ∈ (mountFilesystemForDisk registered garbage ans st partition).used,
      p = (callCreators partition garbage registered).2 := by
  unfold mountFilesystemForDisk
  dsimp only
  split_ifs with h0 hres
  · exact fun p hp => absurd hp List.not_mem_nil
  · exact fun p hp => List.mem_singleton.mp hp
  · exact fun p hp => by simpa using hp

theorem mountFilesystemForDisk_called :
    (mountFilesystemForDisk registered garbage ans st partition).called =
      (callCreators partition garbage registered).1 := by
  unfold mountFilesystemForDisk
  dsimp only
  split_ifs <;> rfl

/--
`MountFilesystemForDisk` does its work exactly when a creator succeeds and the mount has room, or no
creator succeeds and the stack happens to hold `NULL` where `file_out` lies. Otherwise it takes the
garbage there for a file.
-/
theorem mount_filesystem_for_disk_iff (registered : List Filesystem) (garbage : Nat)
    (ans : DiskAnswers) (st : DiskState) (partition : Nat)
    (h : ValidCall registered ans st partition) :
    MountsFirst registered st partition
        (mountFilesystemForDisk registered garbage ans st partition) ↔
      ((∀ fs ∈ registered, fs.mountCreator partition = none) → garbage = 0) ∧
      ((∃ fs ∈ registered, (fs.mountCreator partition).isSome) → MountRoom ans st partition) := by
  have hout := callCreators_fileOut partition garbage registered
  have hcalled := callCreators_called partition garbage registered
  cases hfirst : firstRoot partition registered with
  | none =>
    have hnone : ∀ fs ∈ registered, fs.mountCreator partition = none :=
      List.findSome?_eq_none_iff.mp hfirst
    have hnot : ¬ ∃ fs ∈ registered, (fs.mountCreator partition).isSome := by
      rintro ⟨fs, hfs, hs⟩
      rw [hnone fs hfs] at hs
      cases hs
    constructor
    · intro hm
      refine ⟨fun _ => ?_, fun hex => absurd hex hnot⟩
      by_contra h0
      -- the garbage is looked into, and no creator has set it
      have hused : garbage ∈ (mountFilesystemForDisk registered garbage ans st partition).used := by
        rw [hfirst, Option.getD_none] at hout
        unfold mountFilesystemForDisk
        rw [← Prod.eta (callCreators partition garbage registered), hout]
        dsimp only
        rw [if_neg h0]
        split_ifs
        · exact List.mem_cons_self
        · exact List.mem_cons_self
      obtain ⟨fs, hfs, hset⟩ := hm.used garbage hused
      obtain ⟨rest, heq, -⟩ := hm.called
      have hin : fs ∈ registered := heq ▸ List.mem_append_left rest hfs
      rw [hnone fs hin] at hset
      cases hset
    · rintro ⟨h0, -⟩
      rw [mountFilesystemForDisk_of_none hfirst (h0 hnone)]
      exact ⟨hcalled, fun root hroot => (nomatch hfirst.symm.trans hroot),
        fun _ => ⟨rfl, rfl⟩, nofun⟩
  | some root =>
    obtain ⟨fs, hfs, hfsroot⟩ := List.exists_of_findSome?_eq_some hfirst
    have hsome : ∃ fs ∈ registered, (fs.mountCreator partition).isSome :=
      ⟨fs, hfs, by rw [hfsroot]; rfl⟩
    have hnot : ¬ ∀ fs ∈ registered, fs.mountCreator partition = none := by
      intro hall
      rw [hall fs hfs] at hfsroot
      cases hfsroot
    have hlast := callCreators_last garbage hfirst
    constructor
    · intro hm
      exact ⟨fun hall => absurd hall hnot,
        fun _ => (mountedRoot_iff h hfirst).mp (hm.succeeds root hfirst).2⟩
    · rintro ⟨-, hroom⟩
      refine ⟨?_, fun root' hroot' => ?_, fun hn => (nomatch hfirst.symm.trans hn), fun p hp => ?_⟩
      · rw [mountFilesystemForDisk_called]
        exact hcalled
      · obtain rfl : root = root' := Option.some.inj (hfirst.symm.trans hroot')
        rw [mountFilesystemForDisk_called]
        exact ⟨hlast, (mountedRoot_iff h hfirst).mpr (hroom hsome)⟩
      · have hp' := mountFilesystemForDisk_used p hp
        rw [hout, hfirst, Option.getD_some] at hp'
        obtain ⟨fs', hfs', hroot'⟩ := hlast
        rw [mountFilesystemForDisk_called, hp']
        exact ⟨fs', List.mem_of_getLast? hfs', hroot'⟩

/-- Nothing is mounted, and file 64 is open on vnode 5. -/
def emptyDisk : DiskState where
  vfs :=
    { mountedFileList := [], files := Function.update (fun _ => ⟨0, 0⟩) 64 ⟨1, 5⟩
      refs := fun _ => 1, allocs := [], frees := [], crashed := false }
  partitionFs := fun _ => 0
  nextMountedDiskNum := 0

/-- The heap has memory for everything. -/
def fullHeap : DiskAnswers :=
  ⟨some 4096, true, { lock := 0, entry := some 8192, file := some 12288 }⟩

/-- The second of two filesystems takes partition 3. -/
def fatAfterDemo : List Filesystem :=
  registerFilesystem (registerFilesystem [] ⟨['f', 'a', 't'], fun _ => some 64⟩)
    ⟨['d', 'e', 'm', 'o'], fun _ => none⟩

theorem mount_filesystem_for_disk_iff_fat :
    MountsFirst fatAfterDemo emptyDisk 3
      (mountFilesystemForDisk fatAfterDemo 77 fullHeap emptyDisk 3) := by
  refine (mount_filesystem_for_disk_iff fatAfterDemo 77 fullHeap emptyDisk 3
    ⟨fun fs hfs file hfile => ?_, fun file hfile => ?_, rfl⟩).mpr ⟨fun hall => ?_, fun _ =>
      ⟨rfl, rfl, rfl, rfl, rfl, rfl, rfl⟩⟩
  · simp only [fatAfterDemo, registerFilesystem, List.mem_cons, List.not_mem_nil, or_false] at hfs
    rcases hfs with rfl | rfl
    · cases hfile
    · obtain rfl : 64 = file := Option.some.inj hfile
      decide
  · obtain rfl : 4096 = file := Option.some.inj hfile
    decide
  · have := hall _ (List.mem_cons_of_mem _ List.mem_cons_self)
    cases this

/-- No filesystem is registered, and the pointer on the stack is used as a file. -/
theorem mount_filesystem_for_disk_garbage :
    (mountFilesystemForDisk [] 77 fullHeap emptyDisk 3).used ≠ [] ∧
      (mountFilesystemForDisk [] 77 fullHeap emptyDisk 3).status ≠ enodev ∧
      ¬ MountsFirst [] emptyDisk 3 (mountFilesystemForDisk [] 77 fullHeap emptyDisk 3) := by
  refine ⟨by decide, by decide, fun h => ?_⟩
  have hst := (h.fails rfl).1
  revert hst
  decide

end Nolrem.Vfs.Registry
