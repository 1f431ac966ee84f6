import Mathlib.Order.Bounds.Basic
import Nolrem.Fs.Volume

/-!
# The geometry of a mounted FAT volume

What `fat_mount` of `kernel/fs/fat/fat_core.c` accepts: the areas of the volume, the entries of its
FAT and its clusters.
-/

namespace Nolrem.Fs

/-! ## The capacity of a table -/

/-- The first byte of an entry, in unbounded numbers -/
def entryStart : FatType → Nat → Nat
  | .fat12, n => n + n / 2
  | .fat16, n => 2 * n
  | .fat32, n => 4 * n

/-- The entry of cluster `n` lies within the first `fatBytes` bytes. -/
def EntryFits (type : FatType) (fatBytes n : Nat) : Prop :=
  entryStart type n + entryLength type ≤ fatBytes

/-- An entry before one that fits fits. -/
theorem EntryFits.mono {type : FatType} {fatBytes m n : Nat} (h : EntryFits type fatBytes n)
    (hmn : m ≤ n) : EntryFits type fatBytes m := by
  unfold EntryFits at *
  cases type with
  | fat12 =>
    simp only [entryStart, entryLength] at *
    omega
  | fat16 =>
    simp only [entryStart, entryLength] at *
    omega
  | fat32 =>
    simp only [entryStart, entryLength] at *
    omega

/-- After the first loop the next entry does not fit. -/
theorem climb_spec (fatBytes n : Nat) :
    n ≤ climb fatBytes n ∧ ¬EntryFits .fat12 fatBytes (climb fatBytes n + 1) := by
  fun_induction climb fatBytes n with
  | case1 n hfits ih => exact ⟨by omega, ih.2⟩
  | case2 n hfits => exact ⟨le_rfl, hfits⟩

/-- The second loop stops at the largest entry up to `n` that fits. -/
theorem descend_spec {fatBytes : Nat} (h0 : EntryFits .fat12 fatBytes 0) (n : Nat) :
    EntryFits .fat12 fatBytes (descend fatBytes n) ∧
      ∀ m ≤ n, EntryFits .fat12 fatBytes m → m ≤ descend fatBytes n := by
  induction n with
  | zero => exact ⟨h0, fun m hm _ => hm⟩
  | succ n ih =>
    rw [descend]
    by_cases hbig : n + 1 + (n + 1) / 2 + 2 > fatBytes
    · rw [if_pos hbig]
      refine ⟨ih.1, fun m hm hfits => ih.2 m ?_ hfits⟩
      have hne : m ≠ n + 1 := by
        rintro rfl
        exact absurd hfits (not_le_of_gt hbig)
      omega
    · rw [if_neg hbig]
      exact ⟨not_lt.mp hbig, fun m hm _ => hm⟩

/-- `fat_table_capacity` is the largest cluster number whose entry fits, if any does. -/
theorem fatTableCapacity_isGreatest {type : FatType} {fatBytes : Nat}
    (h0 : EntryFits type fatBytes 0) :
    IsGreatest {n | EntryFits type fatBytes n} (fatTableCapacity type fatBytes) := by
  cases type with
  | fat12 =>
    have hclimb := climb_spec fatBytes ((fatBytes - 2) * 2 / 3)
    have hdescend := descend_spec h0 (climb fatBytes ((fatBytes - 2) * 2 / 3))
    refine ⟨hdescend.1, ?_⟩
    intro m hm
    refine hdescend.2 m ?_ hm
    by_contra hlt
    exact hclimb.2 (EntryFits.mono hm (by omega))
  | fat16 =>
    constructor
    · simp only [EntryFits, entryStart, entryLength, fatTableCapacity, Set.mem_ofPred_eq] at *
      omega
    · intro m hm
      simp only [EntryFits, entryStart, entryLength, fatTableCapacity, Set.mem_ofPred_eq] at *
      omega
  | fat32 =>
    constructor
    · simp only [EntryFits, entryStart, entryLength, fatTableCapacity, Set.mem_ofPred_eq] at *
      omega
    · intro m hm
      simp only [EntryFits, entryStart, entryLength, fatTableCapacity, Set.mem_ofPred_eq] at *
      omega

/-! ## The areas of a volume -/

/-- Some consecutive sectors -/
structure Area where
  start : Nat
  length : Nat
deriving DecidableEq, Repr

/-- Areas that follow each other from sector `a` on, up to sector `b` -/
def Follow : Nat → List Area → Nat → Prop
  | a, [], b => a = b
  | a, area :: areas, b => area.start = a ∧ Follow (a + area.length) areas b

/-- Areas that follow each other: each ends before the later ones start. -/
theorem Follow.pairwise {a b : Nat} {areas : List Area} (h : Follow a areas b) :
    a ≤ b ∧ (∀ area ∈ areas, a ≤ area.start ∧ area.start + area.length ≤ b) ∧
      areas.Pairwise fun x y => x.start + x.length ≤ y.start := by
  induction areas generalizing a with
  | nil => exact ⟨le_of_eq h, by simp, .nil⟩
  | cons area areas ih =>
    obtain ⟨hstart, hrest⟩ := h
    obtain ⟨hle, hin, hpair⟩ := ih hrest
    refine ⟨by omega, ?_, List.pairwise_cons.mpr ⟨?_, hpair⟩⟩
    · intro x hx
      rcases List.mem_cons.mp hx with rfl | hx
      · omega
      · have hx' := hin x hx
        omega
    · intro x hx
      have hx' := hin x hx
      omega

theorem Follow.append {a b c : Nat} {xs ys : List Area} (hx : Follow a xs b)
    (hy : Follow b ys c) : Follow a (xs ++ ys) c := by
  induction xs generalizing a with
  | nil =>
    have hab : a = b := hx
    rw [hab]
    exact hy
  | cons x xs ih => exact ⟨hx.1, ih hx.2⟩

/-- Areas of one length -/
theorem follow_copies (start length n : Nat) :
    Follow start ((List.range n).map fun i => ⟨start + i * length, length⟩)
      (start + n * length) := by
  induction n with
  | zero => simp [Follow]
  | succ n ih =>
    rw [List.range_succ, List.map_append]
    refine ih.append ⟨rfl, ?_⟩
    change start + n * length + length = start + (n + 1) * length
    rw [Nat.succ_mul]
    omega

/-- The reserved area, the copies of the FAT, the fixed root directory and the data area of a
mounted volume -/
def areas (boot : Bytes) (fat : Fat) : List Area :=
  ⟨0, reservedSectors boot⟩ ::
    ((List.range (fatCount boot)).map fun i =>
      ⟨reservedSectors boot + i * fat.fatSectors, fat.fatSectors⟩) ++
    [⟨fat.rootDirStartSector, fat.rootDirSectors⟩,
      ⟨fat.dataStartSector, totalSectors boot - fat.dataStartSector⟩]

/-! ## What is promised of a mounted volume -/

/-- No 32-bit number of the mount wraps or is cut. -/
structure MountExact (boot : Bytes) (fat : Fat) : Prop where
  rootDir : rootDirBytes boot = rootEntries boot * 32 + 511
  cluster_bytes : fat.clusterBytes = sectorsPerCluster boot * 512
  rootDirStart : fat.rootDirStartSector = rootDirStart boot
  dataStart : fat.dataStartSector = dataStart boot
  maxCluster : fat.maxCluster = maxCluster boot
  fatStart : fat.fatStartSector = reservedSectors boot + activeFat boot * fatSectors boot

/-- What holds of a cluster number up to `max_cluster`: its entry is inside the FAT, which the
bounds checks of `fat_read_entry` find, and no 32-bit number wraps. -/
structure EntryExact (fat : Fat) (c : Nat) : Prop where
  offset : entryOffset fat.type c = entryStart fat.type c
  inside : entryStart fat.type c + entryLength fat.type ≤ fat.fatSectors * sectorSize
  sector_lt : entryOffset fat.type c / sectorSize < fat.fatSectors
  next_lt : firstPart fat.type c < entryLength fat.type →
    entryOffset fat.type c / sectorSize + 1 < fat.fatSectors
  firstPart_eq : firstPart fat.type c =
    min (entryLength fat.type) (sectorSize - entryStart fat.type c % sectorSize)
  fatSector : ∀ sector < fat.fatSectors, fat.fatSector sector = fat.fatStartSector + sector

/-- What holds of a cluster: its sectors are inside the data area. -/
structure ClusterExact (boot : Bytes) (fat : Fat) (c : Nat) : Prop where
  clusterSector : fat.clusterSector c = fat.dataStartSector + (c - 2) * fat.sectorsPerCluster
  after_start : fat.dataStartSector ≤ fat.clusterSector c
  before_end : fat.clusterSector c + fat.sectorsPerCluster ≤ totalSectors boot

/-- A consistent geometry -/
structure Consistent (boot : Bytes) (fat : Fat) : Prop where
  follow : Follow 0 (areas boot fat) (totalSectors boot)
  disjoint : (areas boot fat).Pairwise fun x y => x.start + x.length ≤ y.start
  active : ⟨fat.fatStartSector, fat.fatSectors⟩ ∈
    (List.range (fatCount boot)).map fun i =>
      (⟨reservedSectors boot + i * fat.fatSectors, fat.fatSectors⟩ : Area)
  exact : MountExact boot fat
  entries : ∀ c ≤ fat.maxCluster, EntryExact fat c
  clusters : ∀ c, 2 ≤ c → c ≤ fat.maxCluster → ClusterExact boot fat c
  capacity : IsGreatest {n | EntryFits fat.type (fat.fatSectors * sectorSize) n}
    (fatTableCapacity fat.type (fat.fatSectors * sectorSize))

/-! ## What the checks of `fat_mount` give -/

/-- The checks that later code depends on -/
structure Accepted (boot : Bytes) : Prop where
  cluster_pos : 0 < sectorsPerCluster boot
  active_lt : oneActiveFat boot → activeFat boot < fatCount boot
  reserved_pos : 0 < reservedSectors boot
  count_pos : 0 < fatCount boot
  sectors_pos : 0 < fatSectors boot
  data_lt : dataStart boot < totalSectors boot
  two_le : 2 ≤ maxCluster boot
  root : isFat32 boot → 2 ≤ rootCluster boot ∧ rootCluster boot ≤ maxCluster boot

/-- A check that was passed -/
theorem of_check {ε α : Type} {c : Prop} [Decidable c] {e : ε} {x : Except ε α} {a : α}
    (h : (if c then .error e else x) = .ok a) : ¬c ∧ x = .ok a := by
  by_cases hc : c
  · rw [if_pos hc] at h
    cases h
  · rw [if_neg hc] at h
    exact ⟨hc, h⟩

theorem fatMount_ok {blockSize : Nat} {boot : Bytes} {allocs : Bool} {fat : Fat}
    (h : fatMount blockSize (some boot) allocs = .ok fat) :
    Accepted boot ∧ fat = mounted boot := by
  unfold fatMount at h
  obtain ⟨-, h⟩ := of_check h
  obtain ⟨-, h⟩ := of_check h
  obtain ⟨-, h⟩ := of_check h
  obtain ⟨-, h⟩ := of_check h
  obtain ⟨-, h⟩ := of_check h
  obtain ⟨hcluster, h⟩ := of_check h
  obtain ⟨-, h⟩ := of_check h
  obtain ⟨hactive, h⟩ := of_check h
  obtain ⟨-, h⟩ := of_check h
  obtain ⟨hcounts, h⟩ := of_check h
  obtain ⟨hdata, h⟩ := of_check h
  obtain ⟨hmax, h⟩ := of_check h
  obtain ⟨hroot, h⟩ := of_check h
  have hfat : fat = mounted boot := by
    cases allocs with
    | true => exact (Except.ok.inj h).symm
    | false => cases h
  refine ⟨?_, hfat⟩
  constructor
  · omega
  · intro ha
    exact not_le.mp fun hle => hactive ⟨ha, hle⟩
  · omega
  · omega
  · omega
  · omega
  · omega
  · intro h32
    constructor
    · exact not_lt.mp fun hlt => hroot ⟨h32, .inl hlt⟩
    · exact not_lt.mp fun hlt => hroot ⟨h32, .inr hlt⟩

/-! ## Bounds of the fields -/

theorem totalSectors_lt (boot : Bytes) : totalSectors boot < wordSize := by
  have h16 := le16_lt boot 19
  have h32 := le32_lt boot 32
  unfold totalSectors wordSize
  split <;> omega

theorem rootDirBytes_eq (boot : Bytes) : rootDirBytes boot = rootEntries boot * 32 + 511 := by
  have h := le16_lt boot 17
  unfold rootDirBytes wadd wmul wsub entrySize sectorSize rootEntries
  omega

namespace Accepted

variable {boot : Bytes}

/-- The active copy of the FAT is one of the copies. -/
theorem active_lt_count (h : Accepted boot) : activeFat boot < fatCount boot := by
  by_cases ha : oneActiveFat boot
  · exact h.active_lt ha
  · have hzero : activeFat boot = 0 := if_neg ha
    rw [hzero]
    exact h.count_pos

/-- The copies of the FAT end before the data area starts. -/
theorem copy_end_le {i : Nat} (hi : i < fatCount boot) :
    reservedSectors boot + i * fatSectors boot + fatSectors boot ≤ rootDirStart boot := by
  have hmul : (i + 1) * fatSectors boot ≤ fatCount boot * fatSectors boot :=
    Nat.mul_le_mul_right _ hi
  unfold rootDirStart
  rw [Nat.succ_mul] at hmul
  omega

theorem rootDirStart_lt (h : Accepted boot) : rootDirStart boot < wordSize := by
  have hdata := h.data_lt
  have htotal := totalSectors_lt boot
  unfold dataStart at hdata
  omega

theorem fatStartSector_eq (h : Accepted boot) :
    fatStartSector boot = reservedSectors boot + activeFat boot * fatSectors boot := by
  have hcopy := copy_end_le h.active_lt_count
  have hroot := h.rootDirStart_lt
  unfold wordSize at hroot
  unfold fatStartSector
  rw [wmul_eq (by omega), wadd_eq (by omega)]

/-- The end of the active FAT is a 32-bit number. -/
theorem fat_end_lt (h : Accepted boot) :
    fatStartSector boot + fatSectors boot < 4294967296 := by
  have hcopy := copy_end_le h.active_lt_count
  have hroot := h.rootDirStart_lt
  unfold wordSize at hroot
  rw [h.fatStartSector_eq]
  omega

theorem maxCluster_le_limit (boot : Bytes) :
    maxCluster boot ≤ typeLimit (fatType boot) := by
  unfold maxCluster
  omega

theorem maxCluster_lt (boot : Bytes) : maxCluster boot ≤ 0x0FFFFFF6 := by
  refine (maxCluster_le_limit boot).trans ?_
  cases fatType boot with
  | fat12 => decide
  | fat16 => decide
  | fat32 => decide

theorem mountExact (h : Accepted boot) : MountExact boot (mounted boot) where
  rootDir := rootDirBytes_eq boot
  cluster_bytes := by
    have hb := (boot 13).toNat_lt
    unfold mounted sectorSize sectorsPerCluster
    exact wmul_eq (by omega)
  rootDirStart := Nat.mod_eq_of_lt h.rootDirStart_lt
  dataStart := Nat.mod_eq_of_lt (h.data_lt.trans (totalSectors_lt boot))
  maxCluster := by
    have hmax := maxCluster_lt boot
    exact Nat.mod_eq_of_lt (by unfold wordSize; omega)
  fatStart := h.fatStartSector_eq

/-! ## The areas -/

theorem follow (h : Accepted boot) :
    Follow 0 (areas boot (mounted boot)) (totalSectors boot) := by
  have hexact := h.mountExact
  have hcopies := follow_copies (reservedSectors boot) (fatSectors boot) (fatCount boot)
  have hdata := h.data_lt
  unfold areas
  rw [hexact.rootDirStart, hexact.dataStart, List.cons_append]
  refine ⟨rfl, ?_⟩
  rw [Nat.zero_add]
  refine Follow.append hcopies ⟨rfl, rfl, ?_⟩
  change dataStart boot + (totalSectors boot - dataStart boot) = totalSectors boot
  omega

theorem active_mem (h : Accepted boot) :
    (⟨(mounted boot).fatStartSector, (mounted boot).fatSectors⟩ : Area) ∈
      (List.range (fatCount boot)).map fun i =>
        (⟨reservedSectors boot + i * (mounted boot).fatSectors,
          (mounted boot).fatSectors⟩ : Area) := by
  refine List.mem_map.mpr ⟨activeFat boot, List.mem_range.mpr h.active_lt_count, ?_⟩
  rw [Area.mk.injEq]
  exact ⟨h.fatStartSector_eq.symm, rfl⟩

/-! ## The entries -/

theorem capacity (h : Accepted boot) :
    IsGreatest {n | EntryFits (fatType boot) (fatSectors boot * sectorSize) n}
      (fatTableCapacity (fatType boot) (fatSectors boot * sectorSize)) := by
  refine fatTableCapacity_isGreatest ?_
  have hpos := h.sectors_pos
  unfold EntryFits sectorSize
  cases fatType boot with
  | fat12 =>
    simp only [entryStart, entryLength]
    omega
  | fat16 =>
    simp only [entryStart, entryLength]
    omega
  | fat32 =>
    simp only [entryStart, entryLength]
    omega

/-- The entry of a cluster up to `max_cluster` fits. -/
theorem entryFits (h : Accepted boot) {c : Nat} (hc : c ≤ maxCluster boot) :
    EntryFits (fatType boot) (fatSectors boot * sectorSize) c := by
  have hcap : c ≤ fatTableCapacity (fatType boot) (fatSectors boot * sectorSize) := by
    unfold maxCluster at hc
    omega
  exact EntryFits.mono h.capacity.1 hcap

end Accepted

/-- The offset of an entry does not wrap. -/
theorem entryOffset_eq {type : FatType} {c : Nat} (hc : c ≤ 0x0FFFFFF6) :
    entryOffset type c = entryStart type c := by
  cases type with
  | fat12 => exact wadd_eq (by omega)
  | fat16 => exact (wmul_eq (by omega)).trans (Nat.mul_comm c 2)
  | fat32 => exact (wmul_eq (by omega)).trans (Nat.mul_comm c 4)

theorem firstPart_eq {type : FatType} {c : Nat} (hc : c ≤ 0x0FFFFFF6) :
    firstPart type c = min (entryLength type) (sectorSize - entryStart type c % sectorSize) := by
  have hmod : entryStart type c % 512 < 512 := Nat.mod_lt _ (by decide)
  unfold firstPart sectorSize
  rw [entryOffset_eq hc, wsub_eq hmod.le (by decide)]

theorem Accepted.entryExact {boot : Bytes} (h : Accepted boot) {c : Nat}
    (hc : c ≤ maxCluster boot) : EntryExact (mounted boot) c := by
  have hlim := hc.trans (Accepted.maxCluster_lt boot)
  have hfits := h.entryFits hc
  have hoff : entryOffset (mounted boot).type c = entryStart (mounted boot).type c :=
    entryOffset_eq hlim
  have hfirst := @firstPart_eq (mounted boot).type c hlim
  unfold EntryFits sectorSize at hfits
  constructor
  · exact hoff
  · exact hfits
  · rw [hoff]
    have hlen : 0 < entryLength (fatType boot) := by
      cases fatType boot <;> decide
    change entryStart (fatType boot) c / 512 < fatSectors boot
    omega
  · intro hstraddle
    rw [hfirst] at hstraddle
    rw [hoff]
    change entryStart (fatType boot) c / 512 + 1 < fatSectors boot
    change min (entryLength (fatType boot)) (512 - entryStart (fatType boot) c % 512) <
      entryLength (fatType boot) at hstraddle
    omega
  · exact hfirst
  · intro sector hsector
    have hend := h.fat_end_lt
    change sector < fatSectors boot at hsector
    exact wadd_eq (by change fatStartSector boot + sector < 4294967296; omega)

/-! ## The clusters -/

theorem Accepted.clusterExact {boot : Bytes} (h : Accepted boot) {c : Nat} (h2 : 2 ≤ c)
    (hc : c ≤ maxCluster boot) : ClusterExact boot (mounted boot) c := by
  have hlim := hc.trans (Accepted.maxCluster_lt boot)
  have hsector : (mounted boot).clusterSector c =
      (mounted boot).dataStartSector + (c - 2) * (mounted boot).sectorsPerCluster := by
    unfold Fat.clusterSector
    rw [wsub_eq h2 (by omega)]
  have hcount : c - 2 + 1 ≤ clusterCount boot := by
    unfold maxCluster at hc
    omega
  have hend : (c - 2 + 1) * sectorsPerCluster boot ≤ totalSectors boot - dataStart boot :=
    (Nat.mul_le_mul_right _ hcount).trans (Nat.div_mul_le_self _ _)
  rw [Nat.succ_mul] at hend
  have hdata := h.data_lt
  refine ⟨hsector, ?_, ?_⟩
  · rw [hsector]
    omega
  · rw [hsector, h.mountExact.dataStart]
    change dataStart boot + (c - 2) * sectorsPerCluster boot + sectorsPerCluster boot ≤ _
    omega

/-! ## Every accepted volume -/

/-- A volume that `fat_mount` accepts has a consistent geometry. -/
theorem fatMount_consistent {blockSize : Nat} {boot : Bytes} {allocs : Bool} {fat : Fat}
    (h : fatMount blockSize (some boot) allocs = .ok fat) : Consistent boot fat := by
  obtain ⟨hacc, rfl⟩ := fatMount_ok h
  have hmax := hacc.mountExact.maxCluster
  constructor
  · exact hacc.follow
  · exact hacc.follow.pairwise.2.2
  · exact hacc.active_mem
  · exact hacc.mountExact
  · intro c hc
    exact hacc.entryExact (hmax ▸ hc)
  · intro c h2 hc
    exact hacc.clusterExact h2 (hmax ▸ hc)
  · exact hacc.capacity

/-- The boot sector of a FAT16 volume of 10000 sectors -/
def fat16Boot : Bytes := fun i =>
  if i = 0 then 0xEB else if i = 12 then 2 else if i = 13 then 1 else if i = 14 then 1
  else if i = 16 then 2 else if i = 17 then 16 else if i = 19 then 16 else if i = 20 then 39
  else if i = 21 then 0xF8 else if i = 22 then 40 else if i = 510 then 0x55
  else if i = 511 then 0xAA else 0

theorem fatMount_consistent_fat16 :
    Consistent fat16Boot ⟨.fat16, 1, 512, 0, 81, 1, 82, 9919, 1, 40⟩ :=
  @fatMount_consistent 512 fat16Boot true _ (by decide)

end Nolrem.Fs
