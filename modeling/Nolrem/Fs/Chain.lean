import Nolrem.Fs.Table

/-!
# Cluster chains

`fat_next_cluster`, `fat_cluster_at` and `fat_set_hint` of `kernel/fs/fat/fat_table.c`, and the chains
that the FAT on the disk describes.
-/

namespace Nolrem.Fs

/-! ## The code -/

/-- `end_marker` of `fat_next_cluster` -/
def endMarker : FatType → Nat
  | .fat12 => 0xFF8
  | .fat16 => 0xFFF8
  | .fat32 => 0x0FFFFFF8

/-- What `fat_next_cluster` makes of the entry of a cluster -/
def Fat.nextOfEntry (fat : Fat) (entry : Nat) : Except Status Nat :=
  if endMarker fat.type ≤ entry then .error .fatEnd
  else if entry < 2 ∨ fat.maxCluster < entry then .error .eio
  else .ok entry

namespace FatState

/-- `fat_next_cluster` -/
def fatNextCluster (fat : Fat) (dev : Device) (s : FatState) (cluster : Nat) :
    Except Status Nat × FatState :=
  if cluster < 2 ∨ fat.maxCluster < cluster then (.error .eio, s)
  else
    match s.fatReadEntry fat dev cluster with
    | (.error status, s) => (.error status, s)
    | (.ok entry, s) => (fat.nextOfEntry entry, s)

/-- `fat_set_hint` -/
def fatSetHint (s : FatState) (firstCluster index cluster : Nat) : FatState :=
  { s with hintFirstCluster := firstCluster, hintIndex := index, hintCluster := cluster }

/-- The loop of `fat_cluster_at`: so many times to the next cluster -/
def fatHops (fat : Fat) (dev : Device) : Nat → FatState → Nat → Except Status Nat × FatState
  | 0, s, cluster => (.ok cluster, s)
  | n + 1, s, cluster =>
    match s.fatNextCluster fat dev cluster with
    | (.error status, s) => (.error status, s)
    | (.ok next, s) => fatHops fat dev n s next

/-- The hint is about this chain, and not past the index. -/
def HintHelps (s : FatState) (firstCluster index : Nat) : Prop :=
  s.hintFirstCluster = firstCluster ∧ s.hintIndex ≤ index

instance (s : FatState) (firstCluster index : Nat) : Decidable (s.HintHelps firstCluster index) :=
  inferInstanceAs (Decidable (_ ∧ _))

/-- `fat_cluster_at` -/
def fatClusterAt (fat : Fat) (dev : Device) (s : FatState) (firstCluster index : Nat) :
    Except Status Nat × FatState :=
  let hops :=
    if s.HintHelps firstCluster index then
      fatHops fat dev (index - s.hintIndex) s s.hintCluster
    else fatHops fat dev index s firstCluster
  match hops with
  | (.error status, s) => (.error status, s)
  | (.ok cluster, s) => (.ok cluster, s.fatSetHint firstCluster index cluster)

end FatState

/-! ## The chains on the disk -/

/-- The cluster after a cluster, by the FAT on the disk -/
def Device.next (dev : Device) (fat : Fat) (cluster : Nat) : Except Status Nat :=
  if cluster < 2 ∨ fat.maxCluster < cluster then .error .eio
  else fat.nextOfEntry (dev.fatEntry fat cluster)

/-- The cluster so many clusters after a cluster -/
def Device.hops (dev : Device) (fat : Fat) : Nat → Nat → Except Status Nat
  | 0, cluster => .ok cluster
  | n + 1, cluster =>
    match dev.next fat cluster with
    | .error status => .error status
    | .ok next => hops dev fat n next

/-- The clusters form a chain that starts at `cluster` and ends in an end marker. -/
def Device.Chain (dev : Device) (fat : Fat) : Nat → List Nat → Prop
  | _, [] => False
  | cluster, [c] => c = cluster ∧ dev.next fat cluster = .error .fatEnd
  | cluster, c :: c' :: rest =>
    c = cluster ∧ dev.next fat cluster = .ok c' ∧ Chain dev fat c' (c' :: rest)

/-- No request fails, and each transfers a sector at least. -/
def Device.Delivers (dev : Device) : Prop :=
  ∀ request, match dev.answer request with
    | .fails _ _ => False
    | .transfers count _ => sectorSize ≤ count

/-- What the modules on files and directories depend on of a mounted volume -/
structure Fat.Good (fat : Fat) : Prop where
  entries : ∀ c ≤ fat.maxCluster, EntryExact fat c
  max_le : fat.maxCluster ≤ 0x0FFFFFF6
  cluster_pos : 0 < fat.sectorsPerCluster
  clusterBytes_eq : fat.clusterBytes = fat.sectorsPerCluster * sectorSize
  clusterBytes_lt : fat.clusterBytes < 4294967296
  clusterSector : ∀ c, 2 ≤ c → c ≤ fat.maxCluster →
    fat.clusterSector c = fat.dataStartSector + (c - 2) * fat.sectorsPerCluster
  rootDir_lt : fat.rootDirStartSector + fat.rootDirSectors < 4294967296

/-- A mounted volume is good. -/
theorem Fat.Good.of_mount {blockSize : Nat} {boot : Bytes} {allocs : Bool} {fat : Fat}
    (h : fatMount blockSize (some boot) allocs = .ok fat) : fat.Good := by
  have hcons := fatMount_consistent h
  obtain ⟨hacc, hfat⟩ := fatMount_ok h
  constructor
  · exact hcons.entries
  · rw [hcons.exact.maxCluster]
    exact Accepted.maxCluster_lt boot
  · rw [hfat]
    exact hacc.cluster_pos
  · rw [hcons.exact.cluster_bytes, hfat]
    rfl
  · have hbyte := (boot 13).toNat_lt
    rw [hcons.exact.cluster_bytes]
    unfold Fs.sectorsPerCluster
    omega
  · intro c h2 hc
    exact (hcons.clusters c h2 hc).clusterSector
  · have hdata := hacc.data_lt.trans (totalSectors_lt boot)
    rw [hcons.exact.rootDirStart, hfat]
    exact hdata

/-! ## Chains of valid clusters -/

namespace Device

variable {dev : Device} {fat : Fat}

/-- Every read of a sector succeeds. -/
theorem Delivers.readStatus (h : dev.Delivers) (request : Nat) :
    dev.readStatus request sectorSize = none := by
  have hans := h request
  unfold Device.readStatus
  cases hcase : dev.answer request with
  | fails code rest =>
    rw [hcase] at hans
    exact hans.elim
  | transfers count rest =>
    rw [hcase] at hans
    exact if_neg (not_lt.mpr hans)

/-- Hops one after the other -/
theorem hops_add {m n c d : Nat} (h : dev.hops fat m c = .ok d) :
    dev.hops fat (m + n) c = dev.hops fat n d := by
  induction m generalizing c with
  | zero =>
    cases h
    rw [Nat.zero_add]
  | succ m ih =>
    rw [hops] at h
    rw [Nat.add_right_comm, hops]
    cases hnext : dev.next fat c with
    | error status =>
      rw [hnext] at h
      cases h
    | ok next =>
      rw [hnext] at h
      exact ih h

theorem hops_succ {n c d : Nat} (h : dev.hops fat n c = .ok d) :
    dev.hops fat (n + 1) c = dev.next fat d := by
  rw [hops_add h, hops]
  cases dev.next fat d <;> rfl

/-- A cluster whose next one is looked up is valid, unless the answer is `EIO`. -/
theorem valid_of_next {c : Nat} (h : dev.next fat c ≠ .error .eio) :
    2 ≤ c ∧ c ≤ fat.maxCluster := by
  by_contra hc
  refine h (if_pos ?_)
  omega

namespace Chain

variable {c : Nat} {cs : List Nat}

/-- The first cluster of a chain is the one it starts at, and is valid. -/
theorem head (h : dev.Chain fat c cs) :
    ∃ rest, cs = c :: rest ∧ 2 ≤ c ∧ c ≤ fat.maxCluster := by
  match cs, h with
  | [_], h =>
    obtain ⟨rfl, hend⟩ := h
    exact ⟨[], rfl, valid_of_next (by rw [hend]; exact nofun)⟩
  | _ :: c' :: rest, h =>
    obtain ⟨rfl, hnext, -⟩ := h
    exact ⟨c' :: rest, rfl, valid_of_next (by rw [hnext]; exact nofun)⟩

/-- What comes after the first cluster -/
theorem tail {rest : List Nat} (h : dev.Chain fat c (c :: rest)) :
    (rest = [] ∧ dev.next fat c = .error .fatEnd) ∨
      ∃ next, dev.next fat c = .ok next ∧ dev.Chain fat next rest := by
  match rest, h with
  | [], h => exact .inl ⟨rfl, h.2⟩
  | next :: rest, h => exact .inr ⟨next, h.2.1, h.2.2⟩

/-- The clusters of a chain by their index. Past the last one is the end. -/
theorem hops_eq (h : dev.Chain fat c cs) (n : Nat) :
    (∃ d rest, dev.hops fat n c = .ok d ∧ cs.drop n = d :: rest ∧ dev.Chain fat d (d :: rest)) ∨
      (cs.length ≤ n ∧ dev.hops fat n c = .error .fatEnd) := by
  induction n generalizing c cs with
  | zero =>
    obtain ⟨rest, rfl, -⟩ := h.head
    exact .inl ⟨c, rest, rfl, rfl, h⟩
  | succ n ih =>
    obtain ⟨rest, rfl, -⟩ := h.head
    rw [hops, List.drop_succ_cons, List.length_cons]
    rcases h.tail with ⟨rfl, hend⟩ | ⟨next, hnext, hrest⟩
    · rw [hend]
      exact .inr ⟨Nat.succ_le_succ (Nat.zero_le n), rfl⟩
    · rw [hnext]
      rcases ih hrest with hfound | ⟨hlen, hend⟩
      · exact .inl hfound
      · exact .inr ⟨Nat.succ_le_succ hlen, hend⟩

end Chain

end Device

/-! ## The code follows the disk -/

namespace FatState

variable {fat : Fat} {dev : Device} {s : FatState}

/-- The hint names a cluster of the chain it is about. -/
def HintOk (fat : Fat) (dev : Device) (s : FatState) : Prop :=
  dev.hops fat s.hintIndex s.hintFirstCluster = .ok s.hintCluster

/-- What holds of the state between two calls -/
structure Ready (fat : Fat) (dev : Device) (s : FatState) : Prop where
  sound : s.Sound fat dev
  hint : s.HintOk fat dev

theorem start_ready (fat : Fat) (dev : Device) (requests : Nat) :
    (FatState.start requests).Ready fat dev :=
  ⟨start_sound fat dev requests, rfl⟩

theorem SameHint.hintOk {s' : FatState} (h : s.SameHint s') (hs : s.HintOk fat dev) :
    s'.HintOk fat dev := by
  unfold HintOk
  rw [h.1, h.2.1, h.2.2]
  exact hs

/-- Without an error of the disk, `fat_next_cluster` gives the next cluster on the disk. -/
theorem fatNextCluster_spec (hgood : fat.Good) (hdev : dev.Delivers) (h : s.Ready fat dev)
    (c : Nat) :
    (s.fatNextCluster fat dev c).1 = dev.next fat c ∧
      (s.fatNextCluster fat dev c).2.Ready fat dev := by
  unfold fatNextCluster Device.next
  by_cases hc : c < 2 ∨ fat.maxCluster < c
  · rw [if_pos hc, if_pos hc]
    exact ⟨rfl, h⟩
  · rw [if_neg hc, if_neg hc]
    have hread := fatReadEntry_spec h.sound (hgood.entries c (by omega))
    generalize s.fatReadEntry fat dev c = read at hread ⊢
    obtain ⟨result, s'⟩ := read
    have hready : s'.Ready fat dev := ⟨hread.sound, hread.hint.hintOk h.hint⟩
    cases result with
    | ok entry =>
      have hentry : entry = dev.fatEntry fat c := hread.answers
      rw [hentry]
      exact ⟨rfl, hready⟩
    | error status =>
      obtain ⟨request, -, -, hfailed⟩ : dev.Failed s s' status := hread.answers
      exact absurd hfailed (by rw [hdev.readStatus]; exact nofun)

theorem fatHops_spec (hgood : fat.Good) (hdev : dev.Delivers) (h : s.Ready fat dev) (n c : Nat) :
    (fatHops fat dev n s c).1 = dev.hops fat n c ∧ (fatHops fat dev n s c).2.Ready fat dev := by
  induction n generalizing s c with
  | zero => exact ⟨rfl, h⟩
  | succ n ih =>
    have hnext := fatNextCluster_spec hgood hdev h c
    rw [fatHops, Device.hops]
    generalize s.fatNextCluster fat dev c = next at hnext ⊢
    obtain ⟨result, s'⟩ := next
    obtain ⟨hres, hready⟩ := hnext
    simp only at hres
    rw [← hres]
    cases result with
    | error status => exact ⟨rfl, hready⟩
    | ok next => exact ih hready next

/-- `fat_cluster_at` gives the cluster of the chain, with or without the hint. -/
theorem fatClusterAt_spec (hgood : fat.Good) (hdev : dev.Delivers) (h : s.Ready fat dev)
    (firstCluster index : Nat) :
    (s.fatClusterAt fat dev firstCluster index).1 = dev.hops fat index firstCluster ∧
      (s.fatClusterAt fat dev firstCluster index).2.Ready fat dev := by
  have hhops : ∃ n c, (if s.HintHelps firstCluster index then
      fatHops fat dev (index - s.hintIndex) s s.hintCluster
        else fatHops fat dev index s firstCluster) = fatHops fat dev n s c ∧
          dev.hops fat n c = dev.hops fat index firstCluster := by
    by_cases hhelp : s.HintHelps firstCluster index
    · refine ⟨_, _, if_pos hhelp, ?_⟩
      have hhint := h.hint
      unfold HintOk at hhint
      rw [hhelp.1] at hhint
      have hsplit := @Device.hops_add dev fat _ (index - s.hintIndex) _ _ hhint
      rw [Nat.add_sub_cancel' hhelp.2] at hsplit
      exact hsplit.symm
    · exact ⟨_, _, if_neg hhelp, rfl⟩
  obtain ⟨n, c, heq, hdisk⟩ := hhops
  have hspec := fatHops_spec hgood hdev h n c
  unfold fatClusterAt
  simp only [heq]
  rw [← hdisk]
  generalize fatHops fat dev n s c = hops at hspec ⊢
  obtain ⟨result, s'⟩ := hops
  obtain ⟨hres, hready⟩ := hspec
  simp only at hres hready
  cases result with
  | error status => exact ⟨hres, hready⟩
  | ok cluster =>
    refine ⟨hres, hready.sound.of_cache_eq rfl, ?_⟩
    change dev.hops fat index firstCluster = .ok cluster
    rw [← hdisk, ← hres]

end FatState

end Nolrem.Fs
