import Nolrem.Fs.Dir
import Nolrem.Fs.FileReads

/-!
# What is listed of a directory

The entries that a directory has on the disk, in order, against what `fat_read_directory_entry_sync`
and `fat_follow` find.
-/

namespace Nolrem.Fs

/-! ## The entries on the disk -/

/-- The sector of the volume that holds sector `i` of a directory -/
def Device.dirSector (dev : Device) (fat : Fat) (dirCluster i : Nat) : Except Status Nat :=
  if maxDirSectors ≤ i then .error .fatEnd
  else if dirCluster = 0 then
    if fat.rootDirSectors ≤ i then .error .fatEnd else .ok (fat.rootDirStartSector + i)
  else
    match dev.hops fat (i / fat.sectorsPerCluster) dirCluster with
    | .error status => .error status
    | .ok c => .ok (fat.clusterSector c + i % fat.sectorsPerCluster)

/-- Entry `i` of a sector of the volume -/
def Device.entry (dev : Device) (sector i : Nat) : DirEntry :=
  ⟨entryAt (fun j => dev.volume (sector * sectorSize + j)) i, sector * entriesPerSector + i⟩

/-- The last `n` entries of a sector -/
def Device.lastEntries (dev : Device) (sector n : Nat) : List DirEntry :=
  (List.range' (entriesPerSector - n) n).map (dev.entry sector)

/-- The raw entries of a directory from sector `i` on, at most `fuel` sectors of them -/
def Device.rawEntries (dev : Device) (fat : Fat) (dirCluster : Nat) : Nat → Nat → List DirEntry
  | 0, _ => []
  | fuel + 1, i =>
    match dev.dirSector fat dirCluster i with
    | .error _ => []
    | .ok sector =>
      dev.lastEntries sector entriesPerSector ++ rawEntries dev fat dirCluster fuel (i + 1)

/-- The visible ones of some raw entries: up to the end marker, without those that are not shown -/
def visibleEntries (raw : List DirEntry) : List DirEntry :=
  (raw.takeWhile fun e => decide (e.bytes 0 ≠ 0)).filter fun e => fatEntryVisible e.bytes

/-- A directory: the root, or one that starts at a valid cluster -/
def Fat.IsDir (fat : Fat) (dirCluster : Nat) : Prop :=
  dirCluster = 0 ∨ 2 ≤ dirCluster ∧ dirCluster ≤ fat.maxCluster

instance (fat : Fat) (dirCluster : Nat) : Decidable (fat.IsDir dirCluster) :=
  inferInstanceAs (Decidable (_ ∨ _))

/-- The visible entries of a directory, in the order of the disk -/
def Device.dirEntries (dev : Device) (fat : Fat) (dirCluster : Nat) : List DirEntry :=
  if fat.IsDir dirCluster then
    visibleEntries (dev.rawEntries fat dirCluster maxDirSectors 0)
  else []

/-! ## Names -/

/-- `FatNameEquals` compares names as they are in upper case. -/
theorem fatNameEquals_iff (a b : List UInt8) :
    fatNameEquals a b = true ↔ a.map fatToUpper = b.map fatToUpper := by
  induction a generalizing b with
  | nil =>
    cases b with
    | nil => simp [fatNameEquals]
    | cons y ys => simp [fatNameEquals]
  | cons x xs ih =>
    cases b with
    | nil => simp [fatNameEquals]
    | cons y ys =>
      rw [fatNameEquals, List.map_cons, List.map_cons, List.cons.injEq]
      by_cases hxy : fatToUpper x ≠ fatToUpper y
      · rw [if_pos hxy]
        exact iff_of_false Bool.false_ne_true fun h => hxy h.1
      · rw [if_neg hxy, ih]
        exact ⟨fun h => ⟨not_not.mp hxy, h⟩, fun h => h.2⟩

theorem trimmed_le (entry : Bytes) (start n : Nat) : trimmed entry start n ≤ n := by
  induction n with
  | zero => exact le_rfl
  | succ n ih =>
    rw [trimmed]
    split
    · omega
    · exact le_rfl

/-- No entry has a name longer than 8.3. -/
theorem length_fatEntryName_le (entry : Bytes) : (fatEntryName entry).length ≤ 12 := by
  have hname := trimmed_le entry 0 8
  have hext := trimmed_le entry 8 3
  unfold fatEntryName
  refine (List.takeWhile_sublist _).length_le.trans ?_
  rw [List.length_append]
  split
  · simp only [nameField, List.length_cons, List.length_map, List.length_range]
    omega
  · simp only [nameField, List.length_nil, List.length_map, List.length_range]
    omega

/-! ## Searching a list -/

/-- The first entry of a list that is looked for -/
def Search.pick (search : Search) : Nat → List DirEntry → Option DirEntry
  | _, [] => none
  | seen, e :: es =>
    if search.hit seen e.bytes then some e else pick search (search.next seen) es

theorem pick_nth (n : Nat) {seen : Nat} (l : List DirEntry) (h : seen ≤ n) :
    (Search.nth n).pick seen l = l[n - seen]? := by
  induction l generalizing seen with
  | nil => rfl
  | cons e es ih =>
    rw [Search.pick]
    by_cases hit : seen = n
    · have hhit : (Search.nth n).hit seen e.bytes = true := decide_eq_true hit
      rw [if_pos hhit, hit, Nat.sub_self]
      rfl
    · have hmiss : ¬(Search.nth n).hit seen e.bytes = true := by
        simpa [Search.hit] using hit
      rw [if_neg hmiss]
      change (Search.nth n).pick (seen + 1) es = _
      rw [ih (by omega), show n - seen = n - (seen + 1) + 1 by omega, List.getElem?_cons_succ]

theorem pick_byName (target : List UInt8) (seen : Nat) (l : List DirEntry) :
    (Search.byName target).pick seen l =
      l.find? fun e => fatNameEquals target (fatEntryName e.bytes) := by
  induction l with
  | nil => rfl
  | cons e es ih =>
    rw [Search.pick, List.find?_cons]
    change (if fatNameEquals target (fatEntryName e.bytes) = true then _ else _) = _
    cases fatNameEquals target (fatEntryName e.bytes) with
    | true => rfl
    | false => exact ih

theorem visibleEntries_cons (e : DirEntry) (es : List DirEntry) :
    visibleEntries (e :: es) =
      if e.bytes 0 = 0 then [] else if fatEntryVisible e.bytes = false then visibleEntries es
      else e :: visibleEntries es := by
  unfold visibleEntries
  by_cases h0 : e.bytes 0 = 0
  · rw [if_pos h0, List.takeWhile_cons_of_neg (by simpa using h0)]
    rfl
  · rw [if_neg h0, List.takeWhile_cons_of_pos (by simpa using h0)]
    by_cases hv : fatEntryVisible e.bytes = false
    · rw [if_pos hv, List.filter_cons_of_neg (by simpa using hv)]
    · rw [if_neg hv, List.filter_cons_of_pos (by simpa using hv)]

/-! ## One sector -/

/-- A buffer that holds a sector has its entries. -/
theorem entryAt_congr {p q : Bytes} {i : Nat} (h : ∀ j < sectorSize, p j = q j)
    (hi : i < entriesPerSector) : entryAt p i = entryAt q i := by
  unfold sectorSize at h
  unfold entriesPerSector at hi
  funext j
  unfold entryAt entrySize
  by_cases hj : j < 32
  · rw [if_pos hj, if_pos hj]
    exact h _ (by omega)
  · rw [if_neg hj, if_neg hj]

theorem scanSector_spec {dev : Device} {sector : Nat} {buffer : Bytes}
    (hbuffer : ∀ j < sectorSize, buffer j = dev.volume (sector * sectorSize + j))
    (search : Search) (rest : List DirEntry) {fuel : Nat} (hfuel : fuel ≤ entriesPerSector)
    (seen : Nat) :
    search.pick seen (visibleEntries (dev.lastEntries sector fuel ++ rest)) =
        match scanSector search buffer fuel seen with
        | .found i => some (dev.entry sector i)
        | .ended => none
        | .more seen' => search.pick seen' (visibleEntries rest) := by
  induction fuel generalizing seen with
  | zero => rfl
  | succ fuel ih =>
    have hi : entriesPerSector - (fuel + 1) < entriesPerSector := by
      unfold entriesPerSector at *
      omega
    have hcons : dev.lastEntries sector (fuel + 1) =
        dev.entry sector (entriesPerSector - (fuel + 1)) :: dev.lastEntries sector fuel := by
      unfold Device.lastEntries
      rw [List.range'_succ, List.map_cons,
        show entriesPerSector - (fuel + 1) + 1 = entriesPerSector - fuel by omega]
    have hentry : entryAt buffer (entriesPerSector - (fuel + 1)) =
        (dev.entry sector (entriesPerSector - (fuel + 1))).bytes := entryAt_congr hbuffer hi
    have hrest := ih (by omega)
    rw [hcons, List.cons_append, visibleEntries_cons, scanSector, hentry]
    by_cases h0 : (dev.entry sector (entriesPerSector - (fuel + 1))).bytes 0 = 0
    · rw [if_pos h0, if_pos h0]
      rfl
    rw [if_neg h0, if_neg h0]
    by_cases hv : fatEntryVisible (dev.entry sector (entriesPerSector - (fuel + 1))).bytes = false
    · rw [if_pos hv, if_pos hv]
      exact hrest seen
    rw [if_neg hv, if_neg hv, Search.pick]
    by_cases hhit : search.hit seen (dev.entry sector (entriesPerSector - (fuel + 1))).bytes = true
    · rw [if_pos hhit, if_pos hhit]
    · rw [if_neg hhit, if_neg hhit]
      exact hrest (search.next seen)

/-- The entry that is found is one of the sector. -/
theorem scanSector_found {search : Search} {buffer : Bytes} {fuel seen i : Nat}
    (h : scanSector search buffer fuel seen = .found i) : i < entriesPerSector := by
  induction fuel generalizing seen with
  | zero => cases h
  | succ fuel ih =>
    rw [scanSector] at h
    split at h
    · cases h
    · split at h
      · exact ih h
      · split at h
        · cases h
          unfold entriesPerSector
          omega
        · exact ih h

/-! ## Sector by sector -/

/-- The cursor is before sector `i` of a directory. -/
structure DirCursor.At (cursor : DirCursor) (fat : Fat) (dev : Device) (dirCluster i : Nat) :
    Prop where
  sector : cursor.sector = i
  fixed : cursor.fixedRoot = decide (dirCluster = 0)
  /-- The cluster is used up, and the next one has the sector. -/
  used : dirCluster ≠ 0 → cursor.advance = true →
    ∃ n, i = (n + 1) * fat.sectorsPerCluster ∧ dev.hops fat n dirCluster = .ok cursor.cluster
  /-- The sector is in this cluster. -/
  inside : dirCluster ≠ 0 → cursor.advance = false →
    dev.hops fat (i / fat.sectorsPerCluster) dirCluster = .ok cursor.cluster ∧
      cursor.sectorInCluster = i % fat.sectorsPerCluster

/-- What `fat_dir_next_sector` gives: the sector, and the cursor before the next one -/
def NextSector (fat : Fat) (dev : Device) (dirCluster i : Nat)
    (result : Except Status (Bytes × Nat × DirCursor)) : Prop :=
  match dev.dirSector fat dirCluster i with
  | .error status => result = .error status
  | .ok sector => ∃ buffer cursor', result = .ok (buffer, sector * sectorSize, cursor') ∧
      (∀ j < sectorSize, buffer j = dev.volume (sector * sectorSize + j)) ∧
      cursor'.At fat dev dirCluster (i + 1)

namespace FatState

variable {fat : Fat} {dev : Device} {s : FatState} {dirCluster i : Nat} {cursor : DirCursor}

/-- A sector of a directory can be read. -/
theorem readSector_spec (hdev : dev.Delivers) (h : s.Ready fat dev) (byte : Nat) :
    ∃ buffer, s.readSector dev byte = (.ok buffer, s.asked) ∧ s.asked.Ready fat dev ∧
      ∀ j < sectorSize, buffer j = dev.volume (byte + j) := by
  have hok := hdev.readStatus s.requests
  unfold readSector
  rw [hok]
  exact ⟨_, rfl, h.asked, fun j hj => Device.readBuffer_of_ok hok hj⟩

/-- After `fat_dir_advance` the cursor is in the cluster of the sector. -/
theorem fatDirAdvance_spec (hgood : fat.Good) (hdev : dev.Delivers) (h : s.Ready fat dev)
    (hdir : dirCluster ≠ 0) (hcursor : cursor.At fat dev dirCluster i) :
    (s.fatDirAdvance fat dev cursor).2.Ready fat dev ∧
      match dev.hops fat (i / fat.sectorsPerCluster) dirCluster with
      | .error status => (s.fatDirAdvance fat dev cursor).1 = .error status
      | .ok c => ∃ moved, (s.fatDirAdvance fat dev cursor).1 = .ok moved ∧
          moved.sector = cursor.sector ∧ moved.fixedRoot = cursor.fixedRoot ∧ moved.cluster = c ∧
          moved.sectorInCluster = i % fat.sectorsPerCluster := by
  unfold fatDirAdvance
  cases hadv : cursor.advance with
  | false =>
    obtain ⟨hhops, hin⟩ := hcursor.inside hdir hadv
    rw [hhops]
    exact ⟨h, cursor, rfl, rfl, rfl, rfl, hin⟩
  | true =>
    obtain ⟨n, hi, hhops⟩ := hcursor.used hdir hadv
    have hdiv : i / fat.sectorsPerCluster = n + 1 := by
      rw [hi]
      exact Nat.mul_div_cancel _ hgood.cluster_pos
    have hmod : i % fat.sectorsPerCluster = 0 := by
      rw [hi]
      exact Nat.mul_mod_left _ _
    have hnext := fatNextCluster_spec hgood hdev h cursor.cluster
    rw [hdiv, Device.hops_succ hhops, hmod, if_pos rfl]
    generalize s.fatNextCluster fat dev cursor.cluster = next at hnext ⊢
    obtain ⟨result, s'⟩ := next
    obtain ⟨hres, hready⟩ := hnext
    simp only at hres hready
    rw [← hres]
    cases result with
    | error status => exact ⟨hready, rfl⟩
    | ok next => exact ⟨hready, _, rfl, rfl, rfl, rfl, rfl⟩

theorem fatDirNextSector_spec (hgood : fat.Good) (hdev : dev.Delivers) (h : s.Ready fat dev)
    (hcursor : cursor.At fat dev dirCluster i) :
    NextSector fat dev dirCluster i (s.fatDirNextSector fat dev cursor).1 ∧
      (s.fatDirNextSector fat dev cursor).2.Ready fat dev := by
  have hsector := hcursor.sector
  have hfixed := hcursor.fixed
  unfold fatDirNextSector NextSector Device.dirSector
  rw [hsector]
  by_cases hmax : maxDirSectors ≤ i
  · rw [if_pos hmax, if_pos hmax]
    exact ⟨rfl, h⟩
  rw [if_neg hmax, if_neg hmax]
  by_cases hdir : dirCluster = 0
  · -- the fixed root directory
    rw [if_pos hdir, if_pos (hfixed.trans (decide_eq_true hdir))]
    by_cases hroot : fat.rootDirSectors ≤ i
    · rw [if_pos hroot, if_pos hroot]
      exact ⟨rfl, h⟩
    rw [if_neg hroot, if_neg hroot]
    have hadd : wadd fat.rootDirStartSector i = fat.rootDirStartSector + i :=
      wadd_eq (by have := hgood.rootDir_lt; omega)
    obtain ⟨buffer, hread, hready, hbuffer⟩ :=
      readSector_spec hdev h ((fat.rootDirStartSector + i) * sectorSize)
    simp only [hadd, hread]
    refine ⟨⟨buffer, _, rfl, hbuffer, ?_⟩, hready⟩
    exact ⟨rfl, hfixed, fun hne => absurd hdir hne, fun hne => absurd hdir hne⟩
  · -- a chain of clusters
    rw [if_neg hdir, if_neg (by rw [hfixed, decide_eq_false hdir]; exact Bool.false_ne_true)]
    have hadvance := fatDirAdvance_spec hgood hdev h hdir hcursor
    generalize s.fatDirAdvance fat dev cursor = advanced at hadvance ⊢
    obtain ⟨result, s'⟩ := advanced
    obtain ⟨hready, hres⟩ := hadvance
    simp only at hready hres ⊢
    cases hhops : dev.hops fat (i / fat.sectorsPerCluster) dirCluster with
    | error status =>
      rw [hhops] at hres
      simp only at hres
      subst hres
      exact ⟨rfl, hready⟩
    | ok c =>
      rw [hhops] at hres
      obtain ⟨moved, hmoved, hsec, hfix, hcl, hin⟩ := hres
      subst hmoved
      have hbyte : fat.clusterToByte moved.cluster + moved.sectorInCluster * sectorSize =
          (fat.clusterSector c + i % fat.sectorsPerCluster) * sectorSize := by
        rw [hcl, hin, Nat.add_mul]
        rfl
      obtain ⟨buffer, hread, hready', hbuffer⟩ := readSector_spec hdev hready
        ((fat.clusterSector c + i % fat.sectorsPerCluster) * sectorSize)
      simp only [hbyte, hread]
      refine ⟨⟨buffer, _, rfl, hbuffer, ?_⟩, hready'⟩
      have hdivmod := Nat.div_add_mod' i fat.sectorsPerCluster
      have hlt := Nat.mod_lt i hgood.cluster_pos
      constructor
      · exact congrArg (· + 1) (hsec.trans hsector)
      · exact hfix.trans hfixed
      · intro _ hadv
        have hfull : moved.sectorInCluster + 1 = fat.sectorsPerCluster := of_decide_eq_true hadv
        refine ⟨i / fat.sectorsPerCluster, ?_, by rw [hhops, hcl]⟩
        rw [Nat.succ_mul]
        omega
      · intro _ hadv
        have hfull : moved.sectorInCluster + 1 ≠ fat.sectorsPerCluster :=
          of_decide_eq_false hadv
        have hsucc : i + 1 = i % fat.sectorsPerCluster + 1 +
            fat.sectorsPerCluster * (i / fat.sectorsPerCluster) := by
          rw [Nat.mul_comm]
          omega
        have hdiv : (i + 1) / fat.sectorsPerCluster = i / fat.sectorsPerCluster := by
          rw [hsucc, Nat.add_mul_div_left _ _ hgood.cluster_pos, Nat.div_eq_of_lt (by omega),
            Nat.zero_add]
        have hmod : (i + 1) % fat.sectorsPerCluster = i % fat.sectorsPerCluster + 1 := by
          rw [hsucc, Nat.add_mul_mod_self_left, Nat.mod_eq_of_lt (by omega)]
        rw [hdiv, hmod, hhops, hcl]
        exact ⟨rfl, congrArg (· + 1) hin⟩

/-- The loop finds the first entry that is looked for among the visible ones to come. -/
theorem fatDirLoop_spec (hgood : fat.Good) (hdev : dev.Delivers) (search : Search)
    {fuel : Nat} (hfuel : i + fuel = maxDirSectors) (h : s.Ready fat dev)
    (hcursor : cursor.At fat dev dirCluster i) (seen : Nat) :
    (match search.pick seen (visibleEntries (dev.rawEntries fat dirCluster fuel i)) with
      | none => ∃ status, (s.fatDirLoop fat dev search cursor seen).1 = .error status
      | some e => (s.fatDirLoop fat dev search cursor seen).1 = .ok e) ∧
      (s.fatDirLoop fat dev search cursor seen).2.Ready fat dev := by
  induction fuel generalizing s cursor i seen with
  | zero =>
    have hnext := fatDirNextSector_spec hgood hdev h hcursor
    unfold NextSector Device.dirSector at hnext
    rw [if_pos (by omega)] at hnext
    rw [fatDirLoop]
    generalize s.fatDirNextSector fat dev cursor = next at hnext ⊢
    obtain ⟨result, s'⟩ := next
    obtain ⟨rfl, hready⟩ := hnext
    exact ⟨⟨_, rfl⟩, hready⟩
  | succ fuel ih =>
    have hnext := fatDirNextSector_spec hgood hdev h hcursor
    unfold NextSector at hnext
    rw [fatDirLoop, Device.rawEntries]
    generalize s.fatDirNextSector fat dev cursor = next at hnext ⊢
    obtain ⟨result, s'⟩ := next
    obtain ⟨hres, hready⟩ := hnext
    simp only at hres hready
    cases hsector : dev.dirSector fat dirCluster i with
    | error status =>
      rw [hsector] at hres
      simp only at hres
      subst hres
      cases status with
      | fatEnd => exact ⟨⟨_, rfl⟩, hready⟩
      | _ => exact ⟨⟨_, rfl⟩, hready⟩
    | ok sector =>
      rw [hsector] at hres
      obtain ⟨buffer, cursor', rfl, hbuffer, hcursor'⟩ := hres
      have hscan := scanSector_spec hbuffer search
        (dev.rawEntries fat dirCluster fuel (i + 1)) (le_refl entriesPerSector) seen
      dsimp only
      rw [hscan]
      cases hend : scanSector search buffer entriesPerSector seen with
      | found j =>
        have hj := scanSector_found hend
        have hpos : sector * sectorSize / sectorSize = sector :=
          Nat.mul_div_cancel _ (by decide)
        refine ⟨?_, hready⟩
        dsimp only
        rw [hpos, entryAt_congr hbuffer hj]
        rfl
      | ended => exact ⟨⟨_, rfl⟩, hready⟩
      | more seen' => exact ih (by omega) hready hcursor' seen'

/-- `fat_dir_scan` finds the first entry that is looked for, and nothing if there is none. -/
theorem fatDirScan_spec (hgood : fat.Good) (hdev : dev.Delivers) (h : s.Ready fat dev)
    (dirCluster : Nat) (search : Search) :
    (match search.pick 0 (dev.dirEntries fat dirCluster) with
      | none => ∃ status, (s.fatDirScan fat dev dirCluster search).1 = .error status
      | some e => (s.fatDirScan fat dev dirCluster search).1 = .ok e) ∧
      (s.fatDirScan fat dev dirCluster search).2.Ready fat dev := by
  unfold fatDirScan fatDirStart Device.dirEntries
  by_cases hdir : fat.IsDir dirCluster
  · rw [if_pos hdir]
    unfold Fat.IsDir at hdir
    rw [if_neg (by omega)]
    refine fatDirLoop_spec hgood hdev search (Nat.zero_add _) h ?_ 0
    refine ⟨rfl, rfl, fun _ hadv => ?_, fun _ _ => ?_⟩
    · cases hadv
    · rw [Nat.zero_div, Nat.zero_mod]
      exact ⟨rfl, rfl⟩
  · rw [if_neg hdir]
    unfold Fat.IsDir at hdir
    rw [if_pos (by omega)]
    exact ⟨⟨_, rfl⟩, h⟩

end FatState

/-! ## The listing -/

/-- What is listed of a directory: `"."` if it is the root, and the visible entries -/
def Device.listing (dev : Device) (fat : Fat) (disk dirCluster : Nat) : List Dirent :=
  (if dirCluster = fat.rootCluster then [dotDirent disk] else []) ++
    (dev.dirEntries fat dirCluster).map fun e => e.dirent fat disk

/-- The number on the disk of the entry that is listed at `k`, if it is not the `"."` of the root -/
def entryNumber (fat : Fat) (dirCluster k : Nat) : Option Nat :=
  if dirCluster = fat.rootCluster then if k = 0 then none else some (k - 1) else some k

/-- The read at the offset of entry `k` gives this entry of the listing, or nothing past its end. -/
def Device.Lists (dev : Device) (fat : Fat) (disk dirCluster k : Nat) (io : Transfer)
    (result : Option Status × FatState × Transfer) : Prop :=
  match (dev.listing fat disk dirCluster)[k]? with
  | none => result.2.2 = io
  | some dir => result.1 = none ∧
      result.2.2 = io.advance (slice dir.bytes 0 (min direntSize io.lengthRemaining))

/-- Entry `n` of the disk is not at a place where an earlier one is: the chain of the directory has not
come back to an earlier cluster. -/
def Device.FirstTime (dev : Device) (fat : Fat) (dirCluster n : Nat) : Prop :=
  ∀ e, (dev.dirEntries fat dirCluster)[n]? = some e →
    ∀ e' ∈ (dev.dirEntries fat dirCluster).take n, e'.position ≠ e.position

/-- The read at the offset of entry `k` is in order, and lists nothing that was listed before. -/
def Device.ListsOnce (dev : Device) (fat : Fat) (disk dirCluster k : Nat) (io : Transfer)
    (result : Option Status × FatState × Transfer) : Prop :=
  dev.Lists fat disk dirCluster k io result ∧
    ∀ n ∈ entryNumber fat dirCluster k, dev.FirstTime fat dirCluster n

/-- The number of the entry is past the end even when it is narrowed to 32 bits, or it is not changed
by that, and the chain of the directory has not come back to an earlier cluster. -/
def Device.InOrder (dev : Device) (fat : Fat) (dirCluster k : Nat) : Prop :=
  ∀ n ∈ entryNumber fat dirCluster k,
    (dev.dirEntries fat dirCluster).length ≤ n % wordSize ∨
      n < wordSize ∧ dev.FirstTime fat dirCluster n

/-- `fat_follow` finds the first entry with the name, and fails if there is none. -/
def Device.Follows (dev : Device) (fat : Fat) (dirCluster : Nat) (name : List UInt8)
    (result : Except Status NodeInfo) : Prop :=
  match (dev.dirEntries fat dirCluster).find? fun e =>
      decide (name.map fatToUpper = (fatEntryName e.bytes).map fatToUpper) with
  | none => ∃ status, result = .error status
  | some e => result = .ok (fatDecodeEntry fat e.bytes e.position)

/-- The states that reads of files, reads of directories and lookups come to, without an error of the
disk -/
inductive FatState.Reachable (fat : Fat) (dev : Device) : FatState → Prop where
  | start (requests : Nat) : Reachable fat dev (.start requests)
  | file {s s' : FatState} {copies : Nat → Nat → Bool} {r : ReadRequest} {status : Option Status}
      {io : Transfer} (h : Reachable fat dev s) (hr : r.WellFormed fat dev copies)
      (hread : s.fatReadFileSync fat dev copies r.firstCluster r.fileSize r.io =
        some (status, s', io)) : Reachable fat dev s'
  | directory {s : FatState} (h : Reachable fat dev s) (copies : Nat → Nat → Bool)
      (disk dirCluster : Nat) (io : Transfer) :
      Reachable fat dev (s.fatReadDirectoryEntrySync fat dev copies disk dirCluster io).2.1
  | follow {s : FatState} (h : Reachable fat dev s) (dirCluster : Nat) (name : List UInt8) :
      Reachable fat dev (s.fatFollow fat dev dirCluster name).2

theorem length_dirEntries_le (dev : Device) (fat : Fat) (dirCluster : Nat) :
    (dev.dirEntries fat dirCluster).length ≤ 65536 := by
  have hraw : ∀ fuel i, (dev.rawEntries fat dirCluster fuel i).length ≤ fuel * 16 := by
    intro fuel
    induction fuel with
    | zero => exact fun i => le_rfl
    | succ fuel ih =>
      intro i
      rw [Device.rawEntries]
      split
      · exact Nat.zero_le _
      · rw [List.length_append, Device.lastEntries, List.length_map, List.length_range']
        have hrest := ih (i + 1)
        unfold entriesPerSector
        omega
  unfold Device.dirEntries
  split
  · unfold visibleEntries
    have hfilter := List.length_filter_le (fun e : DirEntry => fatEntryVisible e.bytes)
      ((dev.rawEntries fat dirCluster maxDirSectors 0).takeWhile fun e => decide (e.bytes 0 ≠ 0))
    have htake := (List.takeWhile_sublist (l := dev.rawEntries fat dirCluster maxDirSectors 0)
      fun e : DirEntry => decide (e.bytes 0 ≠ 0)).length_le
    exact (hfilter.trans htake).trans (hraw _ _)
  · exact Nat.zero_le _

/-- `PerformTransfer` stops where the transfer does. -/
theorem performTransfer_min {copies : Nat → Nat → Bool} {io : Transfer} {n : Nat}
    (h : io.Writable copies (min n io.lengthRemaining)) (hn : 0 < min n io.lengthRemaining)
    (trusted : Bytes) :
    performTransfer copies trusted io n =
      (none, io.advance (slice trusted 0 (min n io.lengthRemaining))) := by
  rw [← h.performTransfer hn trusted]
  unfold performTransfer
  rw [Nat.min_assoc, Nat.min_self]

namespace FatState

variable {fat : Fat} {dev : Device} {s : FatState}

theorem fatReadEntryNumber_spec (hgood : fat.Good) (hdev : dev.Delivers) (h : s.Ready fat dev)
    {copies : Nat → Nat → Bool} {io : Transfer}
    (hio : io.Writable copies (min direntSize io.lengthRemaining)) (hlen : 0 < io.lengthRemaining)
    (disk dirCluster n : Nat) :
    (match (dev.dirEntries fat dirCluster)[n % wordSize]? with
      | none => (s.fatReadEntryNumber fat dev copies disk dirCluster n io).2.2 = io
      | some e => (s.fatReadEntryNumber fat dev copies disk dirCluster n io).1 = none ∧
          (s.fatReadEntryNumber fat dev copies disk dirCluster n io).2.2 =
            io.advance (slice (e.dirent fat disk).bytes 0 (min direntSize io.lengthRemaining))) := by
  have hscan := (fatDirScan_spec hgood hdev h dirCluster (.nth (n % wordSize))).1
  rw [pick_nth _ _ (Nat.zero_le _), Nat.sub_zero] at hscan
  unfold fatReadEntryNumber
  generalize s.fatDirScan fat dev dirCluster (.nth (n % wordSize)) = scan at hscan ⊢
  obtain ⟨result, s'⟩ := scan
  have hmin : 0 < min direntSize io.lengthRemaining := by
    unfold direntSize
    omega
  cases hfound : (dev.dirEntries fat dirCluster)[n % wordSize]? with
  | none =>
    rw [hfound] at hscan
    obtain ⟨status, rfl⟩ := hscan
    cases status with
    | enoent => rfl
    | _ => rfl
  | some e =>
    rw [hfound] at hscan
    simp only at hscan
    subst hscan
    have hcopy := performTransfer_min hio hmin (e.dirent fat disk).bytes
    dsimp only
    rw [hcopy]
    exact ⟨rfl, rfl⟩

theorem fatReadEntryNumber_ready (hgood : fat.Good) (hdev : dev.Delivers) (h : s.Ready fat dev)
    (copies : Nat → Nat → Bool) (disk dirCluster n : Nat) (io : Transfer) :
    (s.fatReadEntryNumber fat dev copies disk dirCluster n io).2.1.Ready fat dev := by
  have hscan := (fatDirScan_spec hgood hdev h dirCluster (.nth (n % wordSize))).2
  unfold fatReadEntryNumber
  generalize s.fatDirScan fat dev dirCluster (.nth (n % wordSize)) = scan at hscan ⊢
  obtain ⟨result, s'⟩ := scan
  cases result with
  | error status =>
    cases status with
    | enoent => exact hscan
    | _ => exact hscan
  | ok e => exact hscan

theorem fatFollow_ready (hgood : fat.Good) (hdev : dev.Delivers) (h : s.Ready fat dev)
    (dirCluster : Nat) (name : List UInt8) :
    (s.fatFollow fat dev dirCluster name).2.Ready fat dev := by
  have hscan := (fatDirScan_spec hgood hdev h dirCluster (.byName name)).2
  unfold fatFollow
  split
  · exact h
  · generalize s.fatDirScan fat dev dirCluster (.byName name) = scan at hscan ⊢
    obtain ⟨result, s'⟩ := scan
    cases result with
    | error status => exact hscan
    | ok e => exact hscan

theorem Reachable.ready (hgood : fat.Good) (hdev : dev.Delivers) (h : Reachable fat dev s) :
    s.Ready fat dev := by
  induction h with
  | start requests => exact start_ready fat dev requests
  | file _ hr hread ih =>
    obtain ⟨s'', heq, hready⟩ := fatReadFileSync_spec hgood hdev ih hr
    rw [heq] at hread
    cases hread
    exact hready
  | directory _ copies disk dirCluster io ih =>
    unfold fatReadDirectoryEntrySync
    split
    · exact ih
    · dsimp only
      split
      · split
        · exact ih
        · exact fatReadEntryNumber_ready hgood hdev ih copies disk dirCluster _ io
      · exact fatReadEntryNumber_ready hgood hdev ih copies disk dirCluster _ io
  | follow _ dirCluster name ih => exact fatFollow_ready hgood hdev ih dirCluster name

/-- A lookup finds the first listed entry with the name. -/
theorem fatFollow_follows (hgood : fat.Good) (hdev : dev.Delivers) (h : s.Ready fat dev)
    (dirCluster : Nat) (name : List UInt8) :
    dev.Follows fat dirCluster name (s.fatFollow fat dev dirCluster name).1 := by
  have hscan := (fatDirScan_spec hgood hdev h dirCluster (.byName name)).1
  have hfun : (fun e : DirEntry =>
      decide (name.map fatToUpper = (fatEntryName e.bytes).map fatToUpper)) =
        fun e => fatNameEquals name (fatEntryName e.bytes) := by
    funext e
    rw [Bool.eq_iff_iff, decide_eq_true_iff, fatNameEquals_iff]
  rw [pick_byName] at hscan
  unfold Device.Follows fatFollow
  rw [hfun]
  by_cases hlong : 12 < name.length
  · -- no entry has a name so long
    have hnone : (dev.dirEntries fat dirCluster).find?
        (fun e => fatNameEquals name (fatEntryName e.bytes)) = none := by
      rw [List.find?_eq_none]
      intro e _ heq
      have hlength := congrArg List.length ((fatNameEquals_iff _ _).mp heq)
      rw [List.length_map, List.length_map] at hlength
      have hle := length_fatEntryName_le e.bytes
      omega
    rw [hnone, if_pos hlong]
    exact ⟨_, rfl⟩
  rw [if_neg hlong]
  generalize s.fatDirScan fat dev dirCluster (.byName name) = scan at hscan ⊢
  obtain ⟨result, s'⟩ := scan
  cases hfound : (dev.dirEntries fat dirCluster).find?
      (fun e => fatNameEquals name (fatEntryName e.bytes)) with
  | none =>
    rw [hfound] at hscan
    obtain ⟨status, rfl⟩ := hscan
    exact ⟨status, rfl⟩
  | some e =>
    rw [hfound] at hscan
    simp only at hscan
    subst hscan
    rfl

/-- A transfer that went on is not as it was. -/
theorem advance_ne {io : Transfer} {bytes : List UInt8} (h : 0 < bytes.length) :
    io.advance bytes ≠ io := by
  intro heq
  have hoffset := congrArg Transfer.offset heq
  change io.offset + bytes.length = io.offset at hoffset
  omega

/-- What holds of entry `n` of the disk, for every `n` -/
theorem number_lists_iff (hgood : fat.Good) (hdev : dev.Delivers) (h : s.Ready fat dev)
    {copies : Nat → Nat → Bool} {io : Transfer}
    (hio : io.Writable copies (min direntSize io.lengthRemaining)) (hlen : 0 < io.lengthRemaining)
    (disk dirCluster n : Nat) :
    ((match ((dev.dirEntries fat dirCluster).map fun e => e.dirent fat disk)[n]? with
      | none => (s.fatReadEntryNumber fat dev copies disk dirCluster n io).2.2 = io
      | some dir => (s.fatReadEntryNumber fat dev copies disk dirCluster n io).1 = none ∧
          (s.fatReadEntryNumber fat dev copies disk dirCluster n io).2.2 =
            io.advance (slice dir.bytes 0 (min direntSize io.lengthRemaining))) ∧
      dev.FirstTime fat dirCluster n) ↔
    ((dev.dirEntries fat dirCluster).length ≤ n % wordSize ∨
      n < wordSize ∧ dev.FirstTime fat dirCluster n) := by
  have hspec := fatReadEntryNumber_spec hgood hdev h hio hlen disk dirCluster n
  have hbound := length_dirEntries_le dev fat dirCluster
  have hpast : (dev.dirEntries fat dirCluster).length ≤ n → dev.FirstTime fat dirCluster n := by
    intro hle e he
    rw [List.getElem?_eq_none hle] at he
    cases he
  rw [List.getElem?_map]
  by_cases hn : n < wordSize
  · -- the number is not changed, so the right entry is read
    rw [Nat.mod_eq_of_lt hn] at hspec ⊢
    have hlisted : (match ((dev.dirEntries fat dirCluster)[n]?).map fun e => e.dirent fat disk with
        | none => (s.fatReadEntryNumber fat dev copies disk dirCluster n io).2.2 = io
        | some dir => (s.fatReadEntryNumber fat dev copies disk dirCluster n io).1 = none ∧
            (s.fatReadEntryNumber fat dev copies disk dirCluster n io).2.2 =
              io.advance (slice dir.bytes 0 (min direntSize io.lengthRemaining))) := by
      cases hfound : (dev.dirEntries fat dirCluster)[n]? with
      | none =>
        rw [hfound] at hspec
        exact hspec
      | some e =>
        rw [hfound] at hspec
        exact hspec
    constructor
    · exact fun hboth => .inr ⟨hn, hboth.2⟩
    · rintro (hle | ⟨-, hfirst⟩)
      · exact ⟨hlisted, hpast hle⟩
      · exact ⟨hlisted, hfirst⟩
  · -- nothing is to be listed, but an entry with a small number may be read
    have hle : (dev.dirEntries fat dirCluster).length ≤ n := by
      unfold wordSize at hn
      omega
    rw [List.getElem?_eq_none hle, Option.map_none]
    constructor
    · rintro ⟨hnothing, -⟩
      by_contra hcond
      have hlt : n % wordSize < (dev.dirEntries fat dirCluster).length := by
        by_contra hge
        exact hcond (.inl (not_lt.mp hge))
      rw [List.getElem?_eq_getElem hlt] at hspec
      have hmoved := hspec.2.symm.trans hnothing
      refine advance_ne ?_ hmoved
      rw [length_slice]
      unfold direntSize
      omega
    · rintro (hge | ⟨hlt, -⟩)
      · rw [List.getElem?_eq_none hge] at hspec
        exact ⟨hspec, hpast hle⟩
      · exact absurd hlt hn

theorem lists_iff (hgood : fat.Good) (hdev : dev.Delivers) (h : s.Ready fat dev)
    {copies : Nat → Nat → Bool} {io : Transfer}
    (hio : io.Writable copies (min direntSize io.lengthRemaining)) (hlen : 0 < io.lengthRemaining)
    (disk dirCluster : Nat) {k : Nat} (hoffset : io.offset = k * direntSize) :
    dev.ListsOnce fat disk dirCluster k io
        (s.fatReadDirectoryEntrySync fat dev copies disk dirCluster io) ↔
      dev.InOrder fat dirCluster k := by
  have hmod : io.offset % direntSize = 0 := by
    rw [hoffset]
    exact Nat.mul_mod_left _ _
  have hdiv : io.offset / direntSize = k := by
    rw [hoffset]
    exact Nat.mul_div_cancel _ (by decide)
  unfold Device.ListsOnce Device.InOrder Device.Lists Device.listing entryNumber
    fatReadDirectoryEntrySync
  rw [if_neg (not_not_intro hmod), hdiv]
  dsimp only
  by_cases hroot : dirCluster = fat.rootCluster
  · simp only [if_pos hroot]
    cases k with
    | zero =>
      -- the `"."` of the root
      have hmin : 0 < min direntSize io.lengthRemaining := by
        unfold direntSize
        omega
      rw [if_pos rfl, if_pos rfl, performTransfer_min hio hmin]
      simp
    | succ n =>
      rw [if_neg (Nat.succ_ne_zero n), if_neg (Nat.succ_ne_zero n), List.cons_append,
        List.getElem?_cons_succ, List.nil_append, Nat.add_sub_cancel]
      simp only [Option.mem_some_iff, forall_eq']
      exact number_lists_iff hgood hdev h hio hlen disk dirCluster n
  · simp only [if_neg hroot, List.nil_append, Option.mem_some_iff, forall_eq']
    exact number_lists_iff hgood hdev h hio hlen disk dirCluster k

end FatState

/--
**When a directory is listed in order.** On a mounted volume whose disk makes progress, the read at
the offset of entry `k` gives this entry of the listing, once, or nothing past the end, exactly if the
number of the entry is past the end also when it is narrowed to 32 bits, or is not changed by that,
and the chain has not come back to an earlier cluster. A lookup finds the first listed entry with the
name, and fails if there is none.
-/
theorem directory_lists_iff {blockSize : Nat} {boot : Bytes} {allocs : Bool} {fat : Fat}
    (hfat : fatMount blockSize (some boot) allocs = .ok fat) {dev : Device} (hdev : dev.Delivers)
    {s : FatState} (hs : s.Reachable fat dev) (copies : Nat → Nat → Bool)
    (disk dirCluster k : Nat) {io : Transfer} (hoffset : io.offset = k * direntSize)
    (hlen : 0 < io.lengthRemaining)
    (hio : io.Writable copies (min direntSize io.lengthRemaining)) :
    (dev.ListsOnce fat disk dirCluster k io
        (s.fatReadDirectoryEntrySync fat dev copies disk dirCluster io) ↔
      dev.InOrder fat dirCluster k) ∧
    ∀ name, dev.Follows fat dirCluster name (s.fatFollow fat dev dirCluster name).1 := by
  have hgood := Fat.Good.of_mount hfat
  have hready := hs.ready hgood hdev
  exact ⟨FatState.lists_iff hgood hdev hready hio hlen disk dirCluster hoffset,
    FatState.fatFollow_follows hgood hdev hready dirCluster⟩

/-- A disk of the volume of `fat16Boot` with one file in the root directory: `A` -/
def oneFileDisk : Device where
  volume i :=
    if i = 41472 then 65 else if 41472 < i ∧ i < 41483 then 32 else 0
  answer _ := .transfers 512 fun _ => 0

/-- A buffer for a directory entry, at the offset of entry `k` -/
def entryBuffer (k : Nat) : Transfer := ⟨4096, 268, k * direntSize, []⟩

theorem entryBuffer_writable (k : Nat) :
    (entryBuffer k).Writable (fun _ _ => true)
      (min direntSize (entryBuffer k).lengthRemaining) :=
  ⟨(by decide : (4096 : Nat) ≠ 0), le_rfl, fun _ _ _ _ => rfl⟩

theorem oneFileDisk_entries : (oneFileDisk.dirEntries fat16 0).length = 1 := by
  decide

theorem directory_lists_iff_first :
    oneFileDisk.ListsOnce fat16 1 0 1 (entryBuffer 1)
        ((FatState.start 1).fatReadDirectoryEntrySync fat16 oneFileDisk (fun _ _ => true) 1 0
          (entryBuffer 1)) ↔
      oneFileDisk.InOrder fat16 0 1 :=
  (@directory_lists_iff 512 fat16Boot true fat16 (by decide) oneFileDisk
    (fun request => (by decide : 512 ≤ 512)) _ (.start 1) (fun _ _ => true) 1 0 1 (entryBuffer 1)
    rfl (by decide) (entryBuffer_writable 1)).1

/-- At entry `2 ^ 32 + 1`, far past the end, the one file of the root directory is listed again. -/
theorem listed_again :
    (oneFileDisk.listing fat16 1 0)[4294967297]? = none ∧
      ¬oneFileDisk.ListsOnce fat16 1 0 4294967297 (entryBuffer 4294967297)
        ((FatState.start 1).fatReadDirectoryEntrySync fat16 oneFileDisk (fun _ _ => true) 1 0
          (entryBuffer 4294967297)) := by
  have hgood : fat16.Good := @Fat.Good.of_mount 512 fat16Boot true fat16 (by decide)
  have hroot : fat16.rootCluster = 0 := rfl
  constructor
  · rw [List.getElem?_eq_none_iff]
    unfold Device.listing
    rw [List.length_append, List.length_map, oneFileDisk_entries]
    decide
  · rw [FatState.lists_iff hgood (fun request => (by decide : 512 ≤ 512))
      (FatState.start_ready fat16 oneFileDisk 1) (entryBuffer_writable _) (by decide) 1 0 rfl]
    intro hin
    rcases hin 4294967296 rfl with hle | ⟨hlt, -⟩
    · rw [oneFileDisk_entries] at hle
      revert hle
      decide
    · revert hlt
      decide

end Nolrem.Fs
