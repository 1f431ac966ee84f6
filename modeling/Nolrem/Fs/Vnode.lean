import Nolrem.Fs.Inode
import Nolrem.Vfs.NodeTableRuns

/-!
# Vnodes of a volume

`Follow` of `kernel/fs/fat/fat_vnode.c` asks the table of vnodes for the inode number of an entry, and
makes and registers a vnode if there is none.
-/

namespace Nolrem.Fs

open Nolrem.Lib
open Nolrem.Vfs (Stat TableState TableStep TableInv initVnodeTable registerNewVnode
  tryFindAndReferenceExistingVnode)

/-- The table of vnodes, and the entry that a vnode of the volume was made for -/
structure VnodeState where
  table : TableState
  made : Nat → Option DirEntry

/-- `CreateFatVnode` with the number of an entry: `st_ino` and `st_dev` of a vnode at an address that
the table does not hold -/
def createFatVnode (fat : Fat) (disk : Nat) (e : DirEntry) (node : Nat) (t : TableState) :
    TableState :=
  { t with table.stat := Function.update t.table.stat node ⟨disk, (e.info fat).ino⟩ }

theorem createFatVnode_stat_self (fat : Fat) (disk : Nat) (e : DirEntry) (node : Nat)
    (t : TableState) :
    (createFatVnode fat disk e node t).table.stat node = ⟨disk, (e.info fat).ino⟩ :=
  Function.update_self ..

theorem createFatVnode_stat_of_ne (fat : Fat) (disk : Nat) (e : DirEntry) {node n : Nat}
    (t : TableState) (h : n ≠ node) :
    (createFatVnode fat disk e node t).table.stat n = t.table.stat n :=
  Function.update_of_ne h ..

/--
What happens while a volume is mounted: in some `Follow` a vnode is made, or there is a call on the
table, by a `Follow` or somebody else. Vnodes with this `st_dev` are only made and registered by
`Follow`.
-/
inductive VnodeStep (fat : Fat) (dev : Device) (disk : Nat) : VnodeState → VnodeState → Prop where
  | create (st : VnodeState) (e : DirEntry) (node : Nat) (he : dev.OnVolume fat e)
      (hnew : node ∉ st.table.members) :
      VnodeStep fat dev disk st
        ⟨createFatVnode fat disk e node st.table, Function.update st.made node (some e)⟩
  | call (st : VnodeState) (t : TableState) (h : TableStep st.table t)
      (hstat : ∀ n, t.table.stat n = st.table.table.stat n ∨ (t.table.stat n).dev ≠ disk)
      (hmembers : ∀ n ∈ t.members,
        n ∈ st.table.members ∨ (t.table.stat n).dev ≠ disk ∨ st.made n ≠ none) :
      VnodeStep fat dev disk st { st with table := t }

/-- The volume was mounted when the table held no vnode of it. -/
structure Mounted (disk : Nat) (st : VnodeState) : Prop where
  table : ∃ stat held, Reaches TableStep (initVnodeTable stat held) st.table
  none_held : ∀ n ∈ st.table.members, (st.table.table.stat n).dev ≠ disk
  none_made : ∀ n, st.made n = none

/-- Whatever the table has for the number of an entry was made for an entry of the same file. -/
def VnodesRight (fat : Fat) (dev : Device) (disk : Nat) (st : VnodeState) : Prop :=
  ∀ e, dev.OnVolume fat e → ∀ node,
    (tryFindAndReferenceExistingVnode st.table.table (e.info fat).ino disk).2 = some node →
      ∃ e', st.made node = some e' ∧ e'.node fat = e.node fat

/-- The inode numbers tell the files and directories of a volume from each other. -/
structure InodesIdentify (fat : Fat) (dev : Device) : Prop where
  different : ∀ e e', dev.OnVolume fat e → dev.OnVolume fat e' → e.node fat ≠ e'.node fat →
    (e.info fat).ino ≠ (e'.info fat).ino
  same : ∀ e e', dev.OnVolume fat e → dev.OnVolume fat e' → e.node fat = e'.node fat →
    (e.info fat).ino = (e'.info fat).ino
  root : ∀ e, dev.OnVolume fat e →
    ((e.info fat).ino = fatRootIno ↔ e.node fat = .directory fat.rootCluster)
  vnodes : ∀ disk st₀ st, Mounted disk st₀ → Reaches (VnodeStep fat dev disk) st₀ st →
    VnodesRight fat dev disk st

/-! ## Runs -/

/-- The vnodes of the volume have the numbers of the entries they were made for. -/
structure VnodeInv (fat : Fat) (dev : Device) (disk : Nat) (st : VnodeState) : Prop where
  table : TableInv st.table
  made : ∀ n e, st.made n = some e → (st.table.table.stat n).dev = disk →
    dev.OnVolume fat e ∧ (st.table.table.stat n).ino = (e.info fat).ino
  known : ∀ n ∈ st.table.members, (st.table.table.stat n).dev = disk → st.made n ≠ none

namespace VnodeInv

variable {fat : Fat} {dev : Device} {disk : Nat} {st st' : VnodeState}

theorem of_mounted (h : Mounted disk st) : VnodeInv fat dev disk st := by
  rcases h.table with ⟨stat, held, hrun⟩
  refine ⟨TableInv.run hrun, fun n e hmade => ?_, fun n hn hdev => ?_⟩
  · rw [h.none_made n] at hmade
    cases hmade
  · exact absurd hdev (h.none_held n hn)

theorem step (h : VnodeInv fat dev disk st) (hstep : VnodeStep fat dev disk st st') :
    VnodeInv fat dev disk st' := by
  cases hstep with
  | create e node he hnew =>
    refine ⟨h.table.step (.setStat _ node _ hnew), fun n e' hmade hdev => ?_, fun n hn hdev => ?_⟩
    · dsimp only at hmade hdev ⊢
      by_cases hn : n = node
      · subst hn
        rw [Function.update_self] at hmade
        cases hmade
        rw [createFatVnode_stat_self]
        exact ⟨he, rfl⟩
      · rw [Function.update_of_ne hn] at hmade
        rw [createFatVnode_stat_of_ne _ _ _ _ hn] at hdev ⊢
        exact h.made n e' hmade hdev
    · dsimp only at hn hdev ⊢
      have hne : n ≠ node := by
        rintro rfl
        exact hnew hn
      rw [createFatVnode_stat_of_ne _ _ _ _ hne] at hdev
      rw [Function.update_of_ne hne]
      exact h.known n hn hdev
  | call t hcall hstat hmembers =>
    refine ⟨h.table.step hcall, fun n e hmade hdev => ?_, fun n hn hdev => ?_⟩
    · rcases hstat n with heq | hne
      · rw [heq] at hdev ⊢
        exact h.made n e hmade hdev
      · exact absurd hdev hne
    · rcases hmembers n hn with hold | hne | hmade
      · rcases hstat n with heq | hne
        · rw [heq] at hdev
          exact h.known n hold hdev
        · exact absurd hdev hne
      · exact absurd hdev hne
      · exact hmade

theorem run {st₀ : VnodeState} (h₀ : Mounted disk st₀)
    (hrun : Reaches (VnodeStep fat dev disk) st₀ st) : VnodeInv fat dev disk st :=
  hrun.invariant (of_mounted h₀) fun _ _ hinv hstep => hinv.step hstep

/-- If different files have different numbers, the table has the right vnodes. -/
theorem vnodesRight (h : VnodeInv fat dev disk st)
    (hdiff : ∀ e e', dev.OnVolume fat e → dev.OnVolume fat e' → e.node fat ≠ e'.node fat →
      (e.info fat).ino ≠ (e'.info fat).ino) :
    VnodesRight fat dev disk st := by
  intro e he node hfound
  obtain ⟨hmem, hstat⟩ := (h.table.sound.lookup disk _ node).mp hfound
  have hdev : (st.table.table.stat node).dev = disk := by rw [hstat]
  rcases hmade : st.made node with _ | e'
  · exact absurd hmade (h.known node hmem hdev)
  · refine ⟨e', rfl, ?_⟩
    obtain ⟨he', hino⟩ := h.made node e' hmade hdev
    rw [hstat] at hino
    by_contra hne
    exact hdiff e' e he' he hne hino.symm

end VnodeInv

/-! ## The numbers identify files -/

/--
**Inode numbers identify files just if no entries clash.** On a mounted volume whose files and
directories have disjoint chains, different ones have different numbers, entries of the same one have
the same, only the root has `FAT_ROOT_INO`, and the table of vnodes never gives the vnode of another
file, in any run. All this is so if and only if no two entries that denote different things clash.
-/
theorem inodes_identify_iff {blockSize : Nat} {boot : Bytes} {allocs : Bool} {fat : Fat}
    (hmount : fatMount blockSize (some boot) allocs = .ok fat) {dev : Device}
    (hchains : dev.ChainsDisjoint fat) :
    InodesIdentify fat dev ↔ dev.NoneClash fat := by
  have hapart : ∀ e e', dev.OnVolume fat e → dev.OnVolume fat e' → e.node fat ≠ e'.node fat →
      Apart dev fat e e' := fun e e' he he' hne =>
    ⟨hne, hchains e e' he he' hne, rootCluster_valid hmount, (Fat.Good.of_mount hmount).max_le⟩
  constructor
  · intro h e e' he he' hne hclash
    exact h.different e e' he he' hne ((hapart e e' he he' hne).ino_eq_iff.mpr hclash)
  · intro h
    have hdiff : ∀ e e', dev.OnVolume fat e → dev.OnVolume fat e' → e.node fat ≠ e'.node fat →
        (e.info fat).ino ≠ (e'.info fat).ino := fun e e' he he' hne heq =>
      h e e' he he' hne ((hapart e e' he he' hne).ino_eq_iff.mp heq)
    constructor
    · exact hdiff
    · exact fun e e' he he' => ino_eq_of_node he he'
    · exact fun e _ => ino_eq_root_iff fat e
    · exact fun disk st₀ st h₀ hrun => (VnodeInv.run h₀ hrun).vnodesRight hdiff

/-- The boot sector of a FAT32 volume of 80 GiB, with clusters of one sector -/
def fat32Boot : Bytes := fun i =>
  if i = 0 then 0xEB else if i = 12 then 2 else if i = 13 then 1 else if i = 14 then 32
  else if i = 16 then 1 else if i = 21 then 0xF8 else if i = 35 then 10 else if i = 38 then 17
  else if i = 44 then 2 else if i = 510 then 0x55 else if i = 511 then 0xAA else 0

/-- The volume that is mounted from this boot sector -/
def fat32 : Fat := ⟨.fat32, 1, 512, 2, 1114144, 0, 1114144, 142606335, 32, 1114112⟩

/-- The bytes of an entry that are not all zero, with a name of one letter -/
def rawEntry (name attributes high low : UInt8) : List UInt8 :=
  [name, 32, 32, 32, 32, 32, 32, 32, 32, 32, 32, attributes, 0, 0, 0, 0, 0, 0, 0, 0, 0, high,
    0, 0, 0, 0, low]

/-- A sector that starts with these entries -/
def sectorOf (entries : List (List UInt8)) : Bytes := fun i =>
  (entries.getD (i / entrySize) []).getD (i % entrySize) 0

/--
A disk with two directories of one cluster each. The root has a label, a directory in cluster
`0x8000002` and an empty file; this directory has `"."`, `".."` and an empty file.
-/
def twoDirectoriesDisk : Device where
  volume i :=
    if i < 512 then fat32Boot i
    else if i / 512 = 1114144 then
      sectorOf [rawEntry 86 8 0 0, rawEntry 68 16 8 2, rawEntry 70 0 0 0] (i % 512)
    else if i / 512 = 135331872 then
      sectorOf [rawEntry 46 16 8 2, rawEntry 46 16 0 0, rawEntry 70 0 0 0] (i % 512)
    else if i / 4 = 4098 ∨ i / 4 = 134221826 then 0xFF
    else 0
  answer _ := .transfers 512 fun _ => 0

theorem twoDirectoriesDisk_root :
    twoDirectoriesDisk.dirEntries fat32 2 =
      [twoDirectoriesDisk.entry 1114144 1, twoDirectoriesDisk.entry 1114144 2] :=
  rfl

theorem twoDirectoriesDisk_sub :
    twoDirectoriesDisk.dirEntries fat32 134217730 =
      [twoDirectoriesDisk.entry 135331872 0, twoDirectoriesDisk.entry 135331872 1,
        twoDirectoriesDisk.entry 135331872 2] :=
  rfl

theorem twoDirectoriesDisk_onVolume {e : DirEntry} (h : twoDirectoriesDisk.OnVolume fat32 e) :
    e ∈ twoDirectoriesDisk.dirEntries fat32 2 ∨
      e ∈ twoDirectoriesDisk.dirEntries fat32 134217730 := by
  induction h with
  | root h => exact .inl h
  | child _ hdir h ih =>
    rw [twoDirectoriesDisk_root, twoDirectoriesDisk_sub] at ih
    simp only [List.mem_cons, List.not_mem_nil, or_false] at ih
    rcases ih with (rfl | rfl) | rfl | rfl | rfl
    · exact .inr h
    · exact absurd hdir (by decide)
    · exact .inr h
    · exact .inl h
    · exact absurd hdir (by decide)

/-- Files have no clusters, and directories just their first. -/
theorem twoDirectoriesDisk_uses {e : DirEntry} (h : twoDirectoriesDisk.OnVolume fat32 e) {c : Nat}
    (hc : twoDirectoriesDisk.Uses fat32 e c) : e.node fat32 = .directory c := by
  have hentry : ¬e.IsDirectory ∧ (e.info fat32).firstCluster = 0 ∨
      e.IsDirectory ∧
        twoDirectoriesDisk.next fat32 (e.info fat32).firstCluster = .error .fatEnd := by
    have hmem := twoDirectoriesDisk_onVolume h
    rw [twoDirectoriesDisk_root, twoDirectoriesDisk_sub] at hmem
    simp only [List.mem_cons, List.not_mem_nil, or_false] at hmem
    rcases hmem with (rfl | rfl) | rfl | rfl | rfl
    · exact .inr (by decide)
    · exact .inl (by decide)
    · exact .inr (by decide)
    · exact .inr (by decide)
    · exact .inl (by decide)
  obtain ⟨⟨h2, -⟩, n, hhops⟩ := hc
  rcases hentry with ⟨-, hfirst⟩ | ⟨hdir, hend⟩
  · cases n with
    | zero =>
      rw [hfirst] at hhops
      cases hhops
      omega
    | succ n =>
      rw [hfirst] at hhops
      cases hhops
  · rw [DirEntry.node_of_directory hdir]
    cases n with
    | zero => exact congrArg Node.directory (Except.ok.inj hhops)
    | succ n =>
      rw [Device.hops, hend] at hhops
      cases hhops

theorem twoDirectoriesDisk_chainsDisjoint : twoDirectoriesDisk.ChainsDisjoint fat32 :=
  fun _ _ he he' hne _ hc hc' =>
    hne ((twoDirectoriesDisk_uses he hc).trans (twoDirectoriesDisk_uses he' hc').symm)

theorem inodes_identify_iff_two_directories :
    InodesIdentify fat32 twoDirectoriesDisk ↔ twoDirectoriesDisk.NoneClash fat32 :=
  @inodes_identify_iff 512 fat32Boot true fat32 (by decide) twoDirectoriesDisk
    twoDirectoriesDisk_chainsDisjoint

/-- The two empty files, `2 ^ 31` entries apart, have the same number. -/
theorem empty_files_share_inode :
    fatMount 512 (some fat32Boot) true = .ok fat32 ∧ twoDirectoriesDisk.ChainsDisjoint fat32 ∧
      ¬InodesIdentify fat32 twoDirectoriesDisk := by
  refine ⟨by decide, twoDirectoriesDisk_chainsDisjoint, fun h => ?_⟩
  have hin : twoDirectoriesDisk.OnVolume fat32 (twoDirectoriesDisk.entry 1114144 2) := by
    refine .root ?_
    change _ ∈ twoDirectoriesDisk.dirEntries fat32 2
    rw [twoDirectoriesDisk_root]
    exact .tail _ (.head _)
  have hin' : twoDirectoriesDisk.OnVolume fat32 (twoDirectoriesDisk.entry 135331872 2) := by
    refine .child (d := twoDirectoriesDisk.entry 1114144 1) (.root ?_) (by decide) ?_
    · change _ ∈ twoDirectoriesDisk.dirEntries fat32 2
      rw [twoDirectoriesDisk_root]
      exact .head _
    · change _ ∈ twoDirectoriesDisk.dirEntries fat32 134217730
      rw [twoDirectoriesDisk_sub]
      exact .tail _ (.tail _ (.head _))
  exact h.different _ _ hin hin' (by decide) (by decide)

end Nolrem.Fs
