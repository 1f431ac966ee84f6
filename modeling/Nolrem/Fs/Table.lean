import Mathlib.Logic.Function.Basic
import Nolrem.Fs.Geometry

/-!
# The sector cache of the File Allocation Table

`fat_disk_read` of `kernel/fs/fat/fat_core.c`, and `fat_cache_get` and `fat_read_entry` of
`kernel/fs/fat/fat_table.c`. The disk answers each request as it likes, but what it says it
transferred is what it holds.
-/

namespace Nolrem.Fs

/-! ## The disk -/

/--
What the disk does with a request: it fails, or it transfers so many bytes. The rest of the buffer
is anything.
-/
inductive DiskAnswer where
  | fails (code : Nat) (rest : Bytes)
  | transfers (count : Nat) (rest : Bytes)

/-- A disk: the bytes of the volume, and the answers by the number of the request -/
structure Device where
  volume : Bytes
  answer : Nat → DiskAnswer

namespace Device

/-- The status of `fat_disk_read` on the request with this number -/
def readStatus (dev : Device) (request length : Nat) : Option Status :=
  match dev.answer request with
  | .fails code _ => some (.disk code)
  | .transfers count _ => if count < length then some .eio else none

/-- What is in the buffer after `fat_disk_read` -/
def readBuffer (dev : Device) (request length offset : Nat) : Bytes :=
  match dev.answer request with
  | .fails _ rest => rest
  | .transfers count rest => fun i =>
    if i < min count length then dev.volume (offset + i) else rest i

/-- A read that succeeds fills the buffer. -/
theorem readBuffer_of_ok {dev : Device} {request length offset i : Nat}
    (h : dev.readStatus request length = none) (hi : i < length) :
    dev.readBuffer request length offset i = dev.volume (offset + i) := by
  unfold readStatus at h
  unfold readBuffer
  cases hans : dev.answer request with
  | fails code rest =>
    rw [hans] at h
    cases h
  | transfers count rest =>
    rw [hans] at h
    have hcount : ¬count < length := fun hlt => by
      simp only [if_pos hlt, reduceCtorEq] at h
    exact if_pos (by omega)

end Device

/-! ## The cache -/

/-- `struct fat_cache_slot` -/
structure CacheSlot where
  valid : Bool
  sector : Nat
  data : Bytes

/-- What changes of `struct fat` after the volume is mounted, and how many requests were made -/
structure FatState where
  cache : Fin 2 → CacheSlot
  cacheMru : Fin 2
  hintFirstCluster : Nat
  hintIndex : Nat
  hintCluster : Nat
  requests : Nat

/-- The slot has this sector. -/
def CacheSlot.has (slot : CacheSlot) (sector : Nat) : Prop :=
  slot.valid = true ∧ slot.sector = sector

instance (slot : CacheSlot) (sector : Nat) : Decidable (slot.has sector) :=
  inferInstanceAs (Decidable (_ ∧ _))

namespace FatState

/-- `victim` of `fat_cache_get` -/
def victim (s : FatState) : Fin 2 :=
  if (s.cache 0).valid = false then 0
  else if (s.cache 1).valid = false then 1
  else 1 - s.cacheMru

/-- The part of `fat_cache_get` that reads the sector -/
def fatCacheFill (fat : Fat) (dev : Device) (s : FatState) (sector : Nat) :
    Except Status Bytes × FatState :=
  let data := dev.readBuffer s.requests sectorSize (fat.fatSector sector * sectorSize)
  match dev.readStatus s.requests sectorSize with
  | some status =>
    (.error status,
      { s with
        cache := Function.update s.cache s.victim
          { s.cache s.victim with valid := false, data := data }
        requests := s.requests + 1 })
  | none =>
    (.ok data,
      { s with
        cache := Function.update s.cache s.victim { valid := true, sector := sector, data := data }
        cacheMru := s.victim
        requests := s.requests + 1 })

/-- `fat_cache_get` -/
def fatCacheGet (fat : Fat) (dev : Device) (s : FatState) (sector : Nat) :
    Except Status Bytes × FatState :=
  if (s.cache 0).has sector then (.ok (s.cache 0).data, { s with cacheMru := 0 })
  else if (s.cache 1).has sector then (.ok (s.cache 1).data, { s with cacheMru := 1 })
  else s.fatCacheFill fat dev sector

end FatState

/-- The value of an entry, from the bytes that hold it -/
def entryValue (type : FatType) (cluster : Nat) (bytes : Bytes) : Nat :=
  match type with
  | .fat12 => if cluster % 2 = 1 then le16 bytes 0 / 16 else le16 bytes 0 % 4096
  | .fat16 => le16 bytes 0
  | .fat32 => le32 bytes 0 % 268435456

namespace FatState

/-- `fat_cache_get` where `fat_read_entry` calls it: a sector past the FAT is `EIO`. -/
def fatSectorGet (fat : Fat) (dev : Device) (s : FatState) (sector : Nat) :
    Except Status Bytes × FatState :=
  if fat.fatSectors ≤ sector then (.error .eio, s) else s.fatCacheGet fat dev sector

/-- `fat_read_entry`. The lock is held from the first look at the cache to the last. -/
def fatReadEntry (fat : Fat) (dev : Device) (s : FatState) (cluster : Nat) :
    Except Status Nat × FatState :=
  let offset := entryOffset fat.type cluster
  let sector := offset / sectorSize
  let within := offset % sectorSize
  let part := firstPart fat.type cluster
  match s.fatSectorGet fat dev sector with
  | (.error status, s) => (.error status, s)
  | (.ok data, s) =>
    if part < entryLength fat.type then
      match s.fatSectorGet fat dev (sector + 1) with
      | (.error status, s) => (.error status, s)
      | (.ok next, s) =>
        let bytes : Bytes := fun i => if i < part then data (within + i) else next (i - part)
        (.ok (entryValue fat.type cluster bytes), s)
    else (.ok (entryValue fat.type cluster fun i => data (within + i)), s)

/-- `fat_read_entry` again and again: the results, each with the states before and after -/
def readEntries (fat : Fat) (dev : Device) :
    FatState → List Nat → List (Nat × FatState × Except Status Nat × FatState)
  | _, [] => []
  | s, cluster :: clusters =>
    let call := s.fatReadEntry fat dev cluster
    (cluster, s, call.1, call.2) :: readEntries fat dev call.2 clusters

end FatState

/-- The cache of a volume that was just mounted. The slots hold nothing. -/
def FatState.start (requests : Nat) : FatState where
  cache _ := { valid := false, sector := 0, data := fun _ => 0 }
  cacheMru := 0
  hintFirstCluster := 0
  hintIndex := 0
  hintCluster := 0
  requests := requests

/-! ## What the cache is for -/

/-- A byte of the active FAT on the disk -/
def Device.fatByte (dev : Device) (fat : Fat) (i : Nat) : UInt8 :=
  dev.volume (fat.fatStartSector * sectorSize + i)

/-- The entry of a cluster on the disk -/
def Device.fatEntry (dev : Device) (fat : Fat) (cluster : Nat) : Nat :=
  entryValue fat.type cluster fun i => dev.fatByte fat (entryStart fat.type cluster + i)

/-- The bytes are those of a sector of the FAT. -/
def Device.IsSector (dev : Device) (fat : Fat) (sector : Nat) (data : Bytes) : Prop :=
  ∀ i < sectorSize, data i = dev.fatByte fat (sector * sectorSize + i)

/-- A valid slot holds the sector it names, and no two valid slots name one sector. -/
structure FatState.Sound (fat : Fat) (dev : Device) (s : FatState) : Prop where
  holds : ∀ i, (s.cache i).valid = true →
    dev.IsSector fat (s.cache i).sector (s.cache i).data
  distinct : (s.cache 0).valid = true → (s.cache 1).valid = true →
    (s.cache 0).sector ≠ (s.cache 1).sector

/-- An error is that of a read during the call. -/
def Device.Failed (dev : Device) (before after : FatState) (status : Status) : Prop :=
  ∃ request, before.requests ≤ request ∧ request < after.requests ∧
    dev.readStatus request sectorSize = some status

/-- What a call may give: an error of the disk, or the entry on the disk -/
def Device.Answers (dev : Device) (fat : Fat) (cluster : Nat) (before : FatState)
    (result : Except Status Nat) (after : FatState) : Prop :=
  match result with
  | .error status => dev.Failed before after status
  | .ok value => value = dev.fatEntry fat cluster

/-! ## One look at the cache -/

/-- The seek hint is as it was. -/
def FatState.SameHint (s s' : FatState) : Prop :=
  s'.hintFirstCluster = s.hintFirstCluster ∧ s'.hintIndex = s.hintIndex ∧
    s'.hintCluster = s.hintCluster

theorem FatState.SameHint.trans {s s' s'' : FatState} (h : s.SameHint s')
    (h' : s'.SameHint s'') : s.SameHint s'' :=
  ⟨h'.1.trans h.1, h'.2.1.trans h.2.1, h'.2.2.trans h.2.2⟩

/-- What `fat_cache_get` does, whichever way it goes. -/
structure Got (fat : Fat) (dev : Device) (s : FatState) (sector : Nat)
    (result : Except Status Bytes) (s' : FatState) : Prop where
  sound : s'.Sound fat dev
  le : s.requests ≤ s'.requests
  hint : s.SameHint s'
  data : ∀ data, result = .ok data → dev.IsSector fat sector data
  failed : ∀ status, result = .error status → dev.Failed s s' status

namespace FatState

variable {fat : Fat} {dev : Device} {s : FatState}

/-- Where only the most recently used slot changes, the cache stays sound. -/
theorem Sound.of_cache_eq {s' : FatState} (h : s.Sound fat dev) (heq : s'.cache = s.cache) :
    s'.Sound fat dev := by
  constructor
  · rw [heq]
    exact h.holds
  · rw [heq]
    exact h.distinct

/-- A slot that is emptied leaves the cache sound. -/
theorem Sound.update_invalid {s' : FatState} (h : s.Sound fat dev) (v : Fin 2)
    {slot : CacheSlot} (hslot : slot.valid = false)
    (heq : s'.cache = Function.update s.cache v slot) : s'.Sound fat dev := by
  have hvalid : ∀ i, (s'.cache i).valid = true → s'.cache i = s.cache i := by
    intro i hi
    have hne : i ≠ v := by
      rintro rfl
      rw [heq, Function.update_self, hslot] at hi
      cases hi
    rw [heq, Function.update_of_ne hne]
  constructor
  · intro i hi
    have hi' := hvalid i hi
    rw [hi'] at hi ⊢
    exact h.holds i hi
  · intro h0 h1
    have h0' := hvalid 0 h0
    have h1' := hvalid 1 h1
    rw [h0'] at h0 ⊢
    rw [h1'] at h1 ⊢
    exact h.distinct h0 h1

/-- A sector that no slot has may be put into any slot. -/
theorem Sound.update_valid {s' : FatState} (h : s.Sound fat dev) (v : Fin 2) {sector : Nat}
    {data : Bytes} (hdata : dev.IsSector fat sector data) (hno : ∀ i, ¬(s.cache i).has sector)
    (heq : s'.cache = Function.update s.cache v ⟨true, sector, data⟩) : s'.Sound fat dev := by
  -- a valid slot is the new one, or an old one with another sector
  have hcases : ∀ i, (s'.cache i).valid = true →
      (i = v ∧ s'.cache i = ⟨true, sector, data⟩) ∨
        (i ≠ v ∧ s'.cache i = s.cache i ∧ (s'.cache i).sector ≠ sector) := by
    intro i hi
    by_cases hiv : i = v
    · subst hiv
      exact .inl ⟨rfl, by rw [heq, Function.update_self]⟩
    · have hsame : s'.cache i = s.cache i := by rw [heq, Function.update_of_ne hiv]
      rw [hsame] at hi
      exact .inr ⟨hiv, hsame, fun hsec => hno i ⟨hi, by rw [← hsame]; exact hsec⟩⟩
  constructor
  · intro i hi
    rcases hcases i hi with ⟨-, hnew⟩ | ⟨-, hsame, -⟩
    · rw [hnew]
      exact hdata
    · rw [hsame] at hi ⊢
      exact h.holds i hi
  · intro h0 h1
    rcases hcases 0 h0 with ⟨hv0, hnew0⟩ | ⟨-, hsame0, hne0⟩
    · rcases hcases 1 h1 with ⟨hv1, -⟩ | ⟨-, -, hne1⟩
      · exact absurd (hv0.trans hv1.symm) (by decide)
      · rw [hnew0]
        exact fun heq => hne1 heq.symm
    · rcases hcases 1 h1 with ⟨-, hnew1⟩ | ⟨-, hsame1, -⟩
      · rw [hnew1]
        exact hne0
      · rw [hsame0] at h0 ⊢
        rw [hsame1] at h1 ⊢
        exact h.distinct h0 h1

theorem fatCacheFill_got (h : s.Sound fat dev) {sector : Nat}
    (hsector : fat.fatSector sector = fat.fatStartSector + sector)
    (hno : ∀ i, ¬(s.cache i).has sector) :
    Got fat dev s sector (s.fatCacheFill fat dev sector).1 (s.fatCacheFill fat dev sector).2 := by
  unfold fatCacheFill
  cases hstatus : dev.readStatus s.requests sectorSize with
  | some status =>
    constructor
    · exact h.update_invalid s.victim rfl rfl
    · exact Nat.le_succ _
    · exact ⟨rfl, rfl, rfl⟩
    · intro data hok
      cases hok
    · intro status' herr
      cases herr
      exact ⟨s.requests, le_rfl, Nat.lt_succ_self _, hstatus⟩
  | none =>
    have hdata : dev.IsSector fat sector
        (dev.readBuffer s.requests sectorSize (fat.fatSector sector * sectorSize)) := by
      intro i hi
      rw [Device.readBuffer_of_ok hstatus hi, hsector, Nat.add_mul, Nat.add_assoc]
      rfl
    constructor
    · exact h.update_valid s.victim hdata hno rfl
    · exact Nat.le_succ _
    · exact ⟨rfl, rfl, rfl⟩
    · intro data hok
      cases hok
      exact hdata
    · intro status herr
      cases herr

theorem fatCacheGet_got (h : s.Sound fat dev) {sector : Nat}
    (hsector : fat.fatSector sector = fat.fatStartSector + sector) :
    Got fat dev s sector (s.fatCacheGet fat dev sector).1 (s.fatCacheGet fat dev sector).2 := by
  -- a slot that has the sector gives its data, and becomes the most recently used one
  have hhit : ∀ i, (s.cache i).has sector →
      Got fat dev s sector (.ok (s.cache i).data) { s with cacheMru := i } := by
    intro i hi
    constructor
    · exact h.of_cache_eq rfl
    · exact le_rfl
    · exact ⟨rfl, rfl, rfl⟩
    · intro data hok
      cases hok
      rw [← hi.2]
      exact h.holds i hi.1
    · intro status herr
      cases herr
  unfold fatCacheGet
  by_cases h0 : (s.cache 0).has sector
  · rw [if_pos h0]
    exact hhit 0 h0
  · rw [if_neg h0]
    by_cases h1 : (s.cache 1).has sector
    · rw [if_pos h1]
      exact hhit 1 h1
    · rw [if_neg h1]
      refine fatCacheFill_got h hsector ?_
      intro i
      match i with
      | 0 => exact h0
      | 1 => exact h1

/-- A sector of the FAT passes the bounds check. -/
theorem fatSectorGet_got (h : s.Sound fat dev) {sector : Nat} (hlt : sector < fat.fatSectors)
    (hsector : fat.fatSector sector = fat.fatStartSector + sector) :
    Got fat dev s sector (s.fatSectorGet fat dev sector).1 (s.fatSectorGet fat dev sector).2 := by
  unfold fatSectorGet
  rw [if_neg (not_le.mpr hlt)]
  exact fatCacheGet_got h hsector

end FatState

/-! ## One entry -/

theorem entryValue_congr {type : FatType} {cluster : Nat} {bytes bytes' : Bytes}
    (h : ∀ i < entryLength type, bytes i = bytes' i) :
    entryValue type cluster bytes = entryValue type cluster bytes' := by
  cases type with
  | fat12 => simp only [entryValue, le16, h 0 (by decide), h 1 (by decide)]
  | fat16 => simp only [entryValue, le16, h 0 (by decide), h 1 (by decide)]
  | fat32 =>
    simp only [entryValue, le32, le16, h 0 (by decide), h 1 (by decide), h 2 (by decide),
      h 3 (by decide)]

/-- The bytes of an entry that are in its first sector -/
theorem EntryExact.first_bytes {fat : Fat} {dev : Device} {c : Nat} (h : EntryExact fat c)
    {data : Bytes} (hdata : dev.IsSector fat (entryOffset fat.type c / sectorSize) data) {i : Nat}
    (hi : i < firstPart fat.type c) :
    data (entryOffset fat.type c % sectorSize + i) =
      dev.fatByte fat (entryStart fat.type c + i) := by
  have hpart := h.firstPart_eq
  rw [h.offset] at hdata ⊢
  unfold sectorSize at *
  rw [hdata (entryStart fat.type c % 512 + i) (by unfold sectorSize; omega)]
  unfold sectorSize
  congr 1
  omega

/-- The bytes of an entry that are in its second sector -/
theorem EntryExact.second_bytes {fat : Fat} {dev : Device} {c : Nat} (h : EntryExact fat c)
    {next : Bytes} (hnext : dev.IsSector fat (entryOffset fat.type c / sectorSize + 1) next)
    {i : Nat} (hpart : firstPart fat.type c ≤ i) (hi : i < entryLength fat.type) :
    next (i - firstPart fat.type c) = dev.fatByte fat (entryStart fat.type c + i) := by
  have hfirst := h.firstPart_eq
  have hlen : entryLength fat.type ≤ 4 := by
    cases fat.type <;> decide
  rw [h.offset] at hnext
  unfold sectorSize at *
  rw [hnext (i - firstPart fat.type c) (by unfold sectorSize; omega)]
  unfold sectorSize
  congr 1
  omega

/-- What one call of `fat_read_entry` does. -/
structure EntryRead (fat : Fat) (dev : Device) (s : FatState) (c : Nat)
    (result : Except Status Nat) (s' : FatState) : Prop where
  sound : s'.Sound fat dev
  le : s.requests ≤ s'.requests
  hint : s.SameHint s'
  answers : dev.Answers fat c s result s'

theorem Device.Failed.mono {dev : Device} {a b c d : FatState} {status : Status}
    (h : dev.Failed b c status) (hab : a.requests ≤ b.requests) (hcd : c.requests ≤ d.requests) :
    dev.Failed a d status := by
  obtain ⟨request, hb, hc, hstatus⟩ := h
  exact ⟨request, hab.trans hb, hc.trans_le hcd, hstatus⟩

namespace FatState

variable {fat : Fat} {dev : Device} {s : FatState}

theorem fatReadEntry_spec (h : s.Sound fat dev) {c : Nat} (hc : EntryExact fat c) :
    EntryRead fat dev s c (s.fatReadEntry fat dev c).1 (s.fatReadEntry fat dev c).2 := by
  have hsector := hc.sector_lt
  have hfirst := fatSectorGet_got h hsector (hc.fatSector _ hsector)
  unfold fatReadEntry
  dsimp only
  generalize hget : s.fatSectorGet fat dev (entryOffset fat.type c / sectorSize) = get
    at hfirst ⊢
  obtain ⟨result, s1⟩ := get
  simp only at hfirst ⊢
  cases result with
  | error status => exact ⟨hfirst.sound, hfirst.le, hfirst.hint, hfirst.failed status rfl⟩
  | ok data =>
    have hdata := hfirst.data data rfl
    simp only
    by_cases hpart : firstPart fat.type c < entryLength fat.type
    · -- the entry goes on in the next sector
      rw [if_pos hpart]
      have hnext := hc.next_lt hpart
      have hsecond := fatSectorGet_got hfirst.sound hnext (hc.fatSector _ hnext)
      generalize hget2 : s1.fatSectorGet fat dev (entryOffset fat.type c / sectorSize + 1) =
        get2 at hsecond ⊢
      obtain ⟨result2, s2⟩ := get2
      simp only at hsecond ⊢
      cases result2 with
      | error status =>
        refine ⟨hsecond.sound, hfirst.le.trans hsecond.le, hfirst.hint.trans hsecond.hint, ?_⟩
        exact (hsecond.failed status rfl).mono hfirst.le le_rfl
      | ok next =>
        refine ⟨hsecond.sound, hfirst.le.trans hsecond.le, hfirst.hint.trans hsecond.hint, ?_⟩
        refine entryValue_congr ?_
        intro i hi
        by_cases hin : i < firstPart fat.type c
        · exact (if_pos hin).trans (hc.first_bytes hdata hin)
        · exact (if_neg hin).trans (hc.second_bytes (hsecond.data next rfl) (not_lt.mp hin) hi)
    · rw [if_neg hpart]
      refine ⟨hfirst.sound, hfirst.le, hfirst.hint, ?_⟩
      refine entryValue_congr ?_
      intro i hi
      exact hc.first_bytes hdata (hi.trans_le (not_lt.mp hpart))

/-- A volume that was just mounted has a sound cache. -/
theorem start_sound (fat : Fat) (dev : Device) (requests : Nat) :
    (FatState.start requests).Sound fat dev := by
  constructor
  · intro i hi
    cases hi
  · intro h0
    cases h0

end FatState

/-! ## Every sequence of calls -/

/-- The states that a call goes through: before it, between its two looks at the cache, and after
it -/
def FatState.during (fat : Fat) (dev : Device) (s : FatState) (c : Nat) : List FatState :=
  [s, (s.fatSectorGet fat dev (entryOffset fat.type c / sectorSize)).2,
    (s.fatReadEntry fat dev c).2]

theorem readEntries_spec {fat : Fat} {dev : Device} {s : FatState} {clusters : List Nat}
    (h : s.Sound fat dev) (hc : ∀ c ∈ clusters, EntryExact fat c) :
    ∀ call ∈ s.readEntries fat dev clusters,
      (∀ state ∈ call.2.1.during fat dev call.1, state.Sound fat dev) ∧
        dev.Answers fat call.1 call.2.1 call.2.2.1 call.2.2.2 := by
  induction clusters generalizing s with
  | nil =>
    intro call hcall
    cases hcall
  | cons c clusters ih =>
    have hexact := hc c List.mem_cons_self
    have hspec := FatState.fatReadEntry_spec h hexact
    intro call hcall
    rcases List.mem_cons.mp hcall with rfl | hcall
    · refine ⟨?_, hspec.answers⟩
      have hsector := hexact.sector_lt
      have hbetween := FatState.fatSectorGet_got h hsector (hexact.fatSector _ hsector)
      intro state hstate
      rcases List.mem_cons.mp hstate with rfl | hstate
      · exact h
      rcases List.mem_cons.mp hstate with rfl | hstate
      · exact hbetween.sound
      · rw [List.mem_singleton.mp hstate]
        exact hspec.sound
    · exact ih hspec.sound (fun c' hc' => hc c' (List.mem_cons_of_mem c hc')) call hcall

/--
The sector cache is transparent: on a mounted volume, whatever the disk answers, each call gives
the entry on the disk or the error of a read that failed during it, and all the while the valid
slots are two different sectors of the FAT.
-/
theorem fatReadEntry_transparent {blockSize : Nat} {boot : Bytes} {allocs : Bool} {fat : Fat}
    (hfat : fatMount blockSize (some boot) allocs = .ok fat) (dev : Device) (requests : Nat)
    (clusters : List Nat) (hc : ∀ c ∈ clusters, c ≤ fat.maxCluster) :
    ∀ call ∈ (FatState.start requests).readEntries fat dev clusters,
      (∀ state ∈ call.2.1.during fat dev call.1, state.Sound fat dev) ∧
        dev.Answers fat call.1 call.2.1 call.2.2.1 call.2.2.2 :=
  readEntries_spec (FatState.start_sound fat dev requests)
    (fun c hmem => (fatMount_consistent hfat).entries c (hc c hmem))

/-- A disk that answers every request, on which cluster 2 leads to cluster 3 -/
def twoToThree : Device where
  volume i := if i = 516 then 3 else 0
  answer _ := .transfers 512 fun _ => 7

theorem fatReadEntry_transparent_fat16 :
    twoToThree.Answers ⟨.fat16, 1, 512, 0, 81, 1, 82, 9919, 1, 40⟩ 2 (FatState.start 1)
      ((FatState.start 1).fatReadEntry ⟨.fat16, 1, 512, 0, 81, 1, 82, 9919, 1, 40⟩ twoToThree 2).1
      ((FatState.start 1).fatReadEntry ⟨.fat16, 1, 512, 0, 81, 1, 82, 9919, 1, 40⟩ twoToThree
        2).2 :=
  (@fatReadEntry_transparent 512 fat16Boot true _ (by decide) twoToThree 1 [2] (by decide) _
    List.mem_cons_self).2

end Nolrem.Fs
