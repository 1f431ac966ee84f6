import Nolrem.Fs.DirList

/-!
# Inode numbers

The numbers that `fat_make_ino` of `kernel/fs/fat/fat_dir.c` makes up for the entries of a volume, and
when two of them are equal.
-/

namespace Nolrem.Fs

/-! ## The files and directories of a volume -/

/-- A directory is its first cluster. A file is the place of its entry: an empty one has no cluster. -/
inductive Node where
  | directory (firstCluster : Nat)
  | file (position : Nat)
deriving DecidableEq, Repr

namespace DirEntry

/-- `ATTR_DIRECTORY` is set. -/
def IsDirectory (e : DirEntry) : Prop := e.bytes 11 &&& 0x10 ≠ 0

instance (e : DirEntry) : Decidable e.IsDirectory := inferInstanceAs (Decidable (_ ≠ _))

def info (fat : Fat) (e : DirEntry) : NodeInfo := fatDecodeEntry fat e.bytes e.position

/-- What an entry denotes -/
def node (fat : Fat) (e : DirEntry) : Node :=
  if e.IsDirectory then .directory (e.info fat).firstCluster else .file e.position

/-- A file without a cluster -/
def Empty (fat : Fat) (e : DirEntry) : Prop := ¬e.IsDirectory ∧ rawFirstCluster fat e.bytes = 0

instance (fat : Fat) (e : DirEntry) : Decidable (e.Empty fat) := inferInstanceAs (Decidable (_ ∧ _))

end DirEntry

/-- The entries in the root directory, and in each directory that such an entry denotes -/
inductive Device.OnVolume (dev : Device) (fat : Fat) : DirEntry → Prop where
  | root {e : DirEntry} (h : e ∈ dev.dirEntries fat fat.rootCluster) : OnVolume dev fat e
  | child {d e : DirEntry} (hd : OnVolume dev fat d) (hdir : d.IsDirectory)
      (h : e ∈ dev.dirEntries fat (d.info fat).firstCluster) : OnVolume dev fat e

/-- The cluster is in the chain of an entry. -/
def Device.Uses (dev : Device) (fat : Fat) (e : DirEntry) (c : Nat) : Prop :=
  (2 ≤ c ∧ c ≤ fat.maxCluster) ∧ ∃ n, dev.hops fat n (e.info fat).firstCluster = .ok c

/-- No cluster is in the chains of two files or directories. -/
def Device.ChainsDisjoint (dev : Device) (fat : Fat) : Prop :=
  ∀ e e', dev.OnVolume fat e → dev.OnVolume fat e' → e.node fat ≠ e'.node fat →
    ∀ c, dev.Uses fat e c → ¬dev.Uses fat e' c

/-- An entry of a directory is at its position on the volume. -/
theorem Device.mem_dirEntries {dev : Device} {fat : Fat} {dirCluster : Nat} {e : DirEntry}
    (h : e ∈ dev.dirEntries fat dirCluster) :
    ∃ k sector i, dev.dirSector fat dirCluster k = .ok sector ∧ i < entriesPerSector ∧
      e = dev.entry sector i := by
  have hraw : ∀ fuel k, e ∈ dev.rawEntries fat dirCluster fuel k →
      ∃ k sector i, dev.dirSector fat dirCluster k = .ok sector ∧ i < entriesPerSector ∧
        e = dev.entry sector i := by
    intro fuel
    induction fuel with
    | zero => exact fun k hmem => absurd hmem List.not_mem_nil
    | succ fuel ih =>
      intro k hmem
      rw [Device.rawEntries] at hmem
      cases hsector : dev.dirSector fat dirCluster k with
      | error status =>
        rw [hsector] at hmem
        exact absurd hmem List.not_mem_nil
      | ok sector =>
        rw [hsector] at hmem
        rcases List.mem_append.mp hmem with hhere | hlater
        · rcases List.mem_map.mp hhere with ⟨i, hi, rfl⟩
          rw [Nat.sub_self, List.mem_range'_1, Nat.zero_add] at hi
          exact ⟨k, sector, i, hsector, hi.2, rfl⟩
        · exact ih (k + 1) hlater
  unfold Device.dirEntries at h
  split at h
  · exact hraw _ _ ((List.takeWhile_sublist _).mem (List.mem_filter.mp h).1)
  · exact absurd h List.not_mem_nil

theorem Device.OnVolume.eq_entry {dev : Device} {fat : Fat} {e : DirEntry}
    (h : dev.OnVolume fat e) : ∃ sector i, i < entriesPerSector ∧ e = dev.entry sector i := by
  cases h with
  | root h =>
    rcases Device.mem_dirEntries h with ⟨-, sector, i, -, hi, he⟩
    exact ⟨sector, i, hi, he⟩
  | child _ _ h =>
    rcases Device.mem_dirEntries h with ⟨-, sector, i, -, hi, he⟩
    exact ⟨sector, i, hi, he⟩

/-- There is one entry at a position. -/
theorem Device.OnVolume.eq_of_position {dev : Device} {fat : Fat} {e e' : DirEntry}
    (h : dev.OnVolume fat e) (h' : dev.OnVolume fat e') (hpos : e.position = e'.position) :
    e = e' := by
  rcases h.eq_entry with ⟨sector, i, hi, rfl⟩
  rcases h'.eq_entry with ⟨sector', i', hi', rfl⟩
  change sector * 16 + i = sector' * 16 + i' at hpos
  change i < 16 at hi
  change i' < 16 at hi'
  obtain rfl : sector = sector' := by omega
  obtain rfl : i = i' := by omega
  rfl

/-! ## The numbers -/

theorem rawFirstCluster_lt (fat : Fat) (entry : Bytes) :
    rawFirstCluster fat entry < 4294967296 := by
  have hlow := le16_lt entry 26
  have hhigh := le16_lt entry 20
  unfold rawFirstCluster
  split <;> omega

/-- The root directory of FAT12 and FAT16 is not in a cluster. -/
theorem rootCluster_valid {blockSize : Nat} {boot : Bytes} {allocs : Bool} {fat : Fat}
    (h : fatMount blockSize (some boot) allocs = .ok fat) :
    fat.rootCluster = 0 ∨ 2 ≤ fat.rootCluster ∧ fat.rootCluster ≤ fat.maxCluster := by
  have hmax := (fatMount_consistent h).exact.maxCluster
  obtain ⟨hacc, hfat⟩ := fatMount_ok h
  have hroot : fat.rootCluster = rootCluster boot := by rw [hfat]; rfl
  rw [hroot, hmax]
  by_cases h32 : isFat32 boot
  · exact .inr (hacc.root h32)
  · exact .inl (if_neg h32)

/-- The three number spaces: the place of an empty file, the root, and the first cluster of the rest -/
inductive NumberOf (fat : Fat) (e : DirEntry) : Prop where
  | empty (h : e.Empty fat) (hnode : e.node fat = .file e.position)
      (hino : (e.info fat).ino = 2147483648 + e.position % 2147483648)
  | root (h : e.IsDirectory)
      (hraw : rawFirstCluster fat e.bytes = 0 ∨ rawFirstCluster fat e.bytes = fat.rootCluster)
      (hnode : e.node fat = .directory fat.rootCluster) (hino : (e.info fat).ino = fatRootIno)
  | cluster (hraw : rawFirstCluster fat e.bytes ≠ 0)
      (hfirst : (e.info fat).firstCluster = rawFirstCluster fat e.bytes)
      (hnode : ¬e.IsDirectory ∧ e.node fat = .file e.position ∨
        e.IsDirectory ∧ rawFirstCluster fat e.bytes ≠ fat.rootCluster ∧
          e.node fat = .directory (rawFirstCluster fat e.bytes))
      (hino : (e.info fat).ino = wadd (rawFirstCluster fat e.bytes) 1)

theorem numberOf (fat : Fat) (e : DirEntry) : NumberOf fat e := by
  by_cases hdir : e.IsDirectory
  · have hbit : decide (e.bytes 11 &&& 0x10 ≠ 0) = true := decide_eq_true hdir
    by_cases hroot :
        rawFirstCluster fat e.bytes = 0 ∨ rawFirstCluster fat e.bytes = fat.rootCluster
    · have hfirst : (e.info fat).firstCluster = fat.rootCluster := by
        unfold DirEntry.info fatDecodeEntry
        simp only [hbit, true_and]
        rcases hroot with h0 | heq
        · rw [if_pos h0]
        · rw [heq, ite_self]
      refine .root hdir hroot ?_ ?_
      · unfold DirEntry.node
        rw [if_pos hdir, hfirst]
      · change fatMakeIno fat (e.info fat).firstCluster _ _ = _
        rw [hfirst, hbit]
        exact if_pos ⟨rfl, rfl⟩
    · have hne := not_or.mp hroot
      have hfirst : (e.info fat).firstCluster = rawFirstCluster fat e.bytes := by
        unfold DirEntry.info fatDecodeEntry
        exact if_neg fun h => hne.1 h.2
      refine .cluster hne.1 hfirst (.inr ⟨hdir, hne.2, ?_⟩) ?_
      · unfold DirEntry.node
        rw [if_pos hdir, hfirst]
      · change fatMakeIno fat (e.info fat).firstCluster _ _ = _
        rw [hfirst]
        unfold fatMakeIno
        rw [if_neg fun h => hne.2 h.2, if_pos hne.1]
  · have hbit : decide (e.bytes 11 &&& 0x10 ≠ 0) = false := decide_eq_false hdir
    have hfirst : (e.info fat).firstCluster = rawFirstCluster fat e.bytes := by
      unfold DirEntry.info fatDecodeEntry
      simp only [hbit]
      exact if_neg fun h => Bool.false_ne_true h.1
    have hnode : e.node fat = .file e.position := if_neg hdir
    have hino : (e.info fat).ino =
        if rawFirstCluster fat e.bytes ≠ 0 then wadd (rawFirstCluster fat e.bytes) 1
        else 2147483648 + e.position % wordSize % 2147483648 := by
      change fatMakeIno fat (e.info fat).firstCluster _ _ = _
      rw [hfirst, hbit]
      exact if_neg fun h => Bool.false_ne_true h.1
    by_cases h0 : rawFirstCluster fat e.bytes = 0
    · refine .empty ⟨hdir, h0⟩ hnode ?_
      rw [hino, if_neg (not_not_intro h0)]
      unfold wordSize
      omega
    · exact .cluster h0 hfirst (.inl ⟨hdir, hnode⟩) (by rw [hino, if_pos h0])

theorem DirEntry.node_of_directory {fat : Fat} {e : DirEntry} (h : e.IsDirectory) :
    e.node fat = .directory (e.info fat).firstCluster :=
  if_pos h

theorem DirEntry.node_of_file {fat : Fat} {e : DirEntry} (h : ¬e.IsDirectory) :
    e.node fat = .file e.position :=
  if_neg h

/-- The number of a directory is made of its first cluster alone. -/
theorem ino_of_directory {fat : Fat} {e : DirEntry} (h : e.IsDirectory) :
    (e.info fat).ino =
      if (e.info fat).firstCluster = fat.rootCluster then fatRootIno
      else wadd (e.info fat).firstCluster 1 := by
  rcases numberOf fat e with ⟨hempty, -, -⟩ | ⟨-, -, hnode, hino⟩ | ⟨-, hfirst, hnode, hino⟩
  · exact absurd h hempty.1
  · rw [DirEntry.node_of_directory h] at hnode
    rw [hino, if_pos (Node.directory.inj hnode)]
  · rcases hnode with ⟨hfile, -⟩ | ⟨-, hne, -⟩
    · exact absurd h hfile
    · rw [hino, hfirst, if_neg hne]

/-- Entries of one file or directory have the same number. -/
theorem ino_eq_of_node {fat : Fat} {dev : Device} {e e' : DirEntry} (h : dev.OnVolume fat e)
    (h' : dev.OnVolume fat e') (hnode : e.node fat = e'.node fat) :
    (e.info fat).ino = (e'.info fat).ino := by
  by_cases hdir : e.IsDirectory
  · rw [DirEntry.node_of_directory hdir] at hnode
    by_cases hdir' : e'.IsDirectory
    · rw [DirEntry.node_of_directory hdir'] at hnode
      rw [ino_of_directory hdir, ino_of_directory hdir', Node.directory.inj hnode]
    · rw [DirEntry.node_of_file hdir'] at hnode
      cases hnode
  · rw [DirEntry.node_of_file hdir] at hnode
    by_cases hdir' : e'.IsDirectory
    · rw [DirEntry.node_of_directory hdir'] at hnode
      cases hnode
    · rw [DirEntry.node_of_file hdir'] at hnode
      rw [h.eq_of_position h' (Node.file.inj hnode)]

/-- Nothing but the root has its number. -/
theorem ino_eq_root_iff (fat : Fat) (e : DirEntry) :
    (e.info fat).ino = fatRootIno ↔ e.node fat = .directory fat.rootCluster := by
  have hlt := rawFirstCluster_lt fat e.bytes
  rcases numberOf fat e with ⟨-, hnode, hino⟩ | ⟨-, -, hnode, hino⟩ | ⟨hraw, -, hnode, hino⟩
  · rw [hnode, hino]
    refine iff_of_false ?_ nofun
    unfold fatRootIno
    omega
  · exact iff_of_true hino hnode
  · refine iff_of_false ?_ ?_
    · rw [hino]
      unfold wadd fatRootIno
      omega
    · rcases hnode with ⟨-, hnode⟩ | ⟨-, hne, hnode⟩
      · rw [hnode]
        exact nofun
      · rw [hnode]
        exact fun heq => hne (Node.directory.inj heq)

/-! ## Equal numbers -/

/-- An empty file has the number that comes of the first cluster of an entry. -/
def DirEntry.Meets (fat : Fat) (e e' : DirEntry) : Prop :=
  e'.Empty fat ∧ rawFirstCluster fat e.bytes + 1 = 2147483648 + e'.position % 2147483648

/-- Two empty files are at places that agree in the low 31 bits, or two entries have the same first
cluster and the volume has no such cluster, or the first cluster of one is so large that its number is
the one of an empty file. -/
def DirEntry.Clash (fat : Fat) (e e' : DirEntry) : Prop :=
  e.Empty fat ∧ e'.Empty fat ∧ e.position % 2147483648 = e'.position % 2147483648 ∨
    (rawFirstCluster fat e.bytes = rawFirstCluster fat e'.bytes ∧
      rawFirstCluster fat e.bytes ≠ 0 ∧
      (rawFirstCluster fat e.bytes < 2 ∨ fat.maxCluster < rawFirstCluster fat e.bytes)) ∨
    e.Meets fat e' ∨ e'.Meets fat e

theorem DirEntry.Clash.symm {fat : Fat} {e e' : DirEntry} (h : e.Clash fat e') :
    e'.Clash fat e := by
  rcases h with ⟨he, he', hpos⟩ | ⟨heq, hne, hout⟩ | h | h
  · exact .inl ⟨he', he, hpos.symm⟩
  · refine .inr (.inl ⟨heq.symm, ?_, ?_⟩)
    · rwa [← heq]
    · rwa [← heq]
  · exact .inr (.inr (.inr h))
  · exact .inr (.inr (.inl h))

/-- No two entries that denote different files or directories clash. -/
def Device.NoneClash (dev : Device) (fat : Fat) : Prop :=
  ∀ e e', dev.OnVolume fat e → dev.OnVolume fat e' → e.node fat ≠ e'.node fat → ¬e.Clash fat e'

/-- What is assumed of two entries when their numbers are compared -/
structure Apart (dev : Device) (fat : Fat) (e e' : DirEntry) : Prop where
  node : e.node fat ≠ e'.node fat
  chains : ∀ c, dev.Uses fat e c → ¬dev.Uses fat e' c
  root : fat.rootCluster = 0 ∨ 2 ≤ fat.rootCluster ∧ fat.rootCluster ≤ fat.maxCluster
  max_le : fat.maxCluster ≤ 0x0FFFFFF6

namespace Apart

variable {dev : Device} {fat : Fat} {e e' : DirEntry}

theorem symm (h : Apart dev fat e e') : Apart dev fat e' e :=
  ⟨h.node.symm, fun c hu hu' => h.chains c hu' hu, h.root, h.max_le⟩

/-- An empty file against an entry that is none -/
theorem ino_eq_iff_of_empty (h : Apart dev fat e e') (he : e.Empty fat) :
    (e.info fat).ino = (e'.info fat).ino ↔ e.Clash fat e' := by
  have hroot := h.root
  have hmax := h.max_le
  have hlt' := rawFirstCluster_lt fat e'.bytes
  have hraw := he.2
  have hempty : (e.info fat).ino = 2147483648 + e.position % 2147483648 := by
    rcases numberOf fat e with ⟨-, -, hino⟩ | ⟨hdir, -, -, -⟩ | ⟨hne, -, -, -⟩
    · exact hino
    · exact absurd hdir he.1
    · exact absurd he.2 hne
  have hno : ¬e.Meets fat e' := by
    unfold DirEntry.Meets
    omega
  rw [hempty]
  rcases numberOf fat e' with ⟨he', -, hino⟩ | ⟨hdir, hr, -, hino⟩ | ⟨hne, -, -, hino⟩
  · rw [hino]
    constructor
    · exact fun heq => .inl ⟨he, he', by omega⟩
    · rintro (⟨-, -, hpos⟩ | ⟨-, h0, -⟩ | hm | ⟨-, hm⟩)
      · omega
      · exact absurd hraw h0
      · exact absurd hm hno
      · have := he'.2
        omega
  · rw [hino]
    refine iff_of_false (by unfold fatRootIno; omega) ?_
    rintro (⟨-, he', -⟩ | ⟨-, h0, -⟩ | hm | ⟨-, hm⟩)
    · exact he'.1 hdir
    · exact h0 hraw
    · exact hno hm
    · omega
  · rw [hino]
    constructor
    · intro heq
      refine .inr (.inr (.inr ⟨he, ?_⟩))
      unfold wadd at heq
      omega
    · rintro (⟨-, he', -⟩ | ⟨-, h0, -⟩ | hm | ⟨-, hm⟩)
      · exact absurd he'.2 hne
      · exact absurd hraw h0
      · exact absurd hm hno
      · unfold wadd
        omega

/-- Numbers are equal just if the entries clash. -/
theorem ino_eq_iff (h : Apart dev fat e e') :
    (e.info fat).ino = (e'.info fat).ino ↔ e.Clash fat e' := by
  by_cases he : e.Empty fat
  · exact h.ino_eq_iff_of_empty he
  by_cases he' : e'.Empty fat
  · rw [eq_comm, h.symm.ino_eq_iff_of_empty he']
    exact ⟨DirEntry.Clash.symm, DirEntry.Clash.symm⟩
  -- neither is empty, so what is left of a clash is a first cluster that the volume does not have
  have hclash : e.Clash fat e' ↔
      rawFirstCluster fat e.bytes = rawFirstCluster fat e'.bytes ∧
        rawFirstCluster fat e.bytes ≠ 0 ∧
        (rawFirstCluster fat e.bytes < 2 ∨ fat.maxCluster < rawFirstCluster fat e.bytes) := by
    constructor
    · rintro (⟨h1, -, -⟩ | h2 | ⟨h3, -⟩ | ⟨h3, -⟩)
      · exact absurd h1 he
      · exact h2
      · exact absurd h3 he'
      · exact absurd h3 he
    · exact fun h2 => .inr (.inl h2)
  rw [hclash]
  have hroot := h.root
  have hlt := rawFirstCluster_lt fat e.bytes
  have hlt' := rawFirstCluster_lt fat e'.bytes
  rcases numberOf fat e with ⟨h1, -, -⟩ | ⟨-, hr, hn, hi⟩ | ⟨hne, hf, hn, hi⟩
  · exact absurd h1 he
  · rcases numberOf fat e' with ⟨h1, -, -⟩ | ⟨-, -, hn', -⟩ | ⟨hne', -, -, hi'⟩
    · exact absurd h1 he'
    · exact absurd (hn.trans hn'.symm) h.node
    · rw [hi, hi']
      unfold wadd fatRootIno
      omega
  · rcases numberOf fat e' with ⟨h1, -, -⟩ | ⟨-, hr, -, hi'⟩ | ⟨hne', hf', hn', hi'⟩
    · exact absurd h1 he'
    · rw [hi, hi']
      unfold wadd fatRootIno
      omega
    · rw [hi, hi']
      constructor
      · intro heq
        have hraw : rawFirstCluster fat e.bytes = rawFirstCluster fat e'.bytes := by
          unfold wadd at heq
          omega
        refine ⟨hraw, hne, ?_⟩
        by_contra hvalid
        -- a cluster of the volume would be in both chains
        have hcluster : 2 ≤ rawFirstCluster fat e.bytes ∧
            rawFirstCluster fat e.bytes ≤ fat.maxCluster := by omega
        refine h.chains _ ⟨hcluster, 0, congrArg Except.ok hf⟩ ⟨hcluster, 0, ?_⟩
        exact congrArg Except.ok (hf'.trans hraw.symm)
      · exact fun h2 => congrArg (wadd · 1) h2.1

end Apart

end Nolrem.Fs
