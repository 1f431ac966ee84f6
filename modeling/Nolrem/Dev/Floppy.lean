import Nolrem.Vfs.Transfer

/-!
# The floppy driver

`FloppyIo` of `kernel/arch/x86/dev/floppy.c`, and the functions that move sectors for it. The driver
never looks at the data. It sends commands, and the controller moves bytes between the disk and the
DMA buffer. What the controller answers is given.
-/

namespace Nolrem.Dev.Floppy

open Nolrem.Lib Nolrem.Vfs Nolrem.Vfs.Copy

/-! ## The controller -/

/-- `EIO` -/
def eio : Nat := 10

/-- `EROFS` -/
def erofs : Nat := 17

/-- `SECTOR_SIZE` -/
def sectorSize : Nat := 512

/-- `SECTORS_PER_TRACK` -/
def sectorsPerTrack : Nat := 18

/-- `HEADS` -/
def heads : Nat := 2

/-- `FLOPPY_SIZE` -/
def floppySize : Nat := sectorsPerTrack * heads * 80 * sectorSize

/-- `FLOPPY_MAX_RUN` -/
def floppyMaxRun : Nat := 8

/-- `MAX_ATTEMPTS` -/
def maxAttempts : Nat := 10

/-- The bytes of the disk -/
abbrev Disk := Nat → UInt8

/-- How a movement of the heads ends. `timesOut` says that `need_reset` is set. -/
structure Movement where
  ok : Bool
  timesOut : Bool
deriving DecidableEq, Repr

/-- The bytes of a result that are looked at: `res[0]`, `res[1]`, `res[2]` and `res[6]` -/
structure Result where
  st0 : UInt8
  st1 : UInt8
  st2 : UInt8
  size : UInt8
deriving DecidableEq, Repr

/-- What the controller answers in one attempt, as far as it is asked -/
structure Answer where
  reset : Movement
  calibrate : Movement
  seek : Movement
  /-- `none` is a timeout. -/
  result : Option Result
  /-- What a run that fails leaves in the place of the data -/
  junk : Nat → UInt8

/-- The fields of `struct floppy_data` that change, and how many attempts were answered -/
structure Drive where
  currentCylinder : Int
  needReset : Bool
  attempts : Nat
deriving DecidableEq, Repr

/-- A command that was sent, and the length for the DMA -/
structure Sent where
  bytes : List UInt8
  dmaLength : Nat
  /-- `current_cylinder` at that time -/
  cylinder : Int
  /-- The status has no error. -/
  clean : Bool
  junk : Nat → UInt8

/-- Memory and the disk -/
structure World where
  mem : Memory
  disk : Disk

namespace Sent

/-- A byte of the command, as the controller reads it -/
def byte (s : Sent) (i : Nat) : Nat := (s.bytes.getD i 0).toNat

/-- Where on the disk the command begins -/
def start (s : Sent) : Nat :=
  ((s.byte 2 * heads + s.byte 3) * sectorsPerTrack + (s.byte 4 - 1)) * sectorSize

/-- `CMD_WRITE` -/
def isWrite (s : Sent) : Prop := s.byte 0 % 32 = 5

instance (s : Sent) : Decidable s.isWrite := inferInstanceAs (Decidable (_ = _))

/-- What the controller does. Only a command with a clean status has moved the data. -/
def perform (virt : UInt32) (w : World) (s : Sent) : World :=
  if s.isWrite then
    { w with disk := fun i =>
        if s.start ≤ i ∧ i < s.start + s.dmaLength then
          if s.clean then w.mem (place virt (i - s.start)) else s.junk (i - s.start)
        else w.disk i }
  else
    { w with mem := fun x =>
        if (x - virt).toNat < s.dmaLength then
          if s.clean then w.disk (s.start + (x - virt).toNat) else s.junk (x - virt).toNat
        else w.mem x }

end Sent

/-! ## The code -/

/-- `FloppyReset`, whose result is not looked at -/
def floppyReset (a : Answer) (drive : Drive) : Drive :=
  { drive with
    needReset := a.reset.timesOut
    currentCylinder := if a.reset.ok then 0 else -1 }

/-- `FloppyCalibrate` -/
def floppyCalibrate (a : Answer) (drive : Drive) : Drive :=
  { drive with
    needReset := drive.needReset || a.calibrate.timesOut
    currentCylinder := if a.calibrate.ok then 0 else -1 }

/-- `FloppySeek` -/
def floppySeek (a : Answer) (drive : Drive) (cylinder : Nat) : Nat × Drive :=
  (if a.seek.ok then 0 else eio,
    { drive with
      needReset := drive.needReset || a.seek.timesOut
      currentCylinder := if a.seek.ok then cylinder else -1 })

/-- The command of `FloppyTransferRun` -/
def command (write : Bool) (cylinder head sector count : Nat) : List UInt8 :=
  [if write then 0x45 else 0x46, .ofNat (head * 4), .ofNat cylinder, .ofNat head, .ofNat sector, 2,
    .ofNat (sector + count - 1), 0x1B, 0xFF]

/-- The checks of `FloppyTransferRun` -/
def runStatus (write : Bool) : Option Result → Nat
  | none => eio
  | some res =>
    if write = true ∧ res.st1 &&& 0x02 ≠ 0 then erofs
    else if res.st0 &&& (0xC0 ||| 0x08) ≠ 0 then eio
    else if res.st1 &&& (0x20 ||| 0x10 ||| 0x04 ||| 0x01) ≠ 0 then eio
    else if res.st2 &&& (0x40 ||| 0x20 ||| 0x10 ||| 0x02 ||| 0x01) ≠ 0 then eio
    else if res.size ≠ 2 then eio
    else 0

/-- `FloppyTransferRun` -/
def floppyTransferRun (a : Answer) (drive : Drive) (write : Bool)
    (cylinder head sector count : Nat) : Nat × Drive × Sent :=
  let error := runStatus write a.result
  (error, { drive with needReset := drive.needReset || a.result.isNone },
    { bytes := command write cylinder head sector count
      dmaLength := count * sectorSize
      cylinder := drive.currentCylinder
      clean := error = 0
      junk := a.junk })

/-- What `FloppyTransferSectors` does before it seeks -/
def recover (a : Answer) (drive : Drive) (attempt : Nat) : Drive :=
  if drive.needReset = true ∨ (0 < attempt ∧ attempt % 6 = 0) then floppyReset a drive
  else if 0 < attempt ∧ attempt % 3 = 0 then floppyCalibrate a drive
  else drive

/-- The heads are moved to the cylinder unless they are there. -/
def seekTo (a : Answer) (drive : Drive) (cylinder : Nat) : Nat × Drive :=
  if drive.currentCylinder ≠ cylinder then floppySeek a drive cylinder else (0, drive)

/-- The loop of `FloppyTransferSectors`, with `left` attempts to go -/
def transferAttempts (hw : Nat → Answer) (write : Bool) (cylinder head sector count : Nat) :
    Nat → Drive → Nat × Nat × Drive × List Sent
  | 0, drive => (eio, 0, drive, [])
  | left + 1, drive =>
    let attempt := maxAttempts - (left + 1)
    let a := hw drive.attempts
    let (error, drive) := seekTo a (recover a { drive with attempts := drive.attempts + 1 } attempt)
      cylinder
    if error ≠ 0 then transferAttempts hw write cylinder head sector count left drive
    else
      let run := if write = true ∨ attempt < 3 then count else 1
      let (error, drive, sent) := floppyTransferRun a drive write cylinder head sector run
      if error = 0 then (0, run, drive, [sent])
      else if error = erofs then (erofs, 0, drive, [sent])
      else
        let (error, done, drive, rest) :=
          transferAttempts hw write cylinder head sector count left drive
        (error, done, drive, sent :: rest)

/-- `FloppyTransferSectors`, with the commands it has sent -/
def floppyTransferSectors (hw : Nat → Answer) (drive : Drive) (write : Bool)
    (cylinder head sector count : Nat) : Nat × Nat × Drive × List Sent :=
  transferAttempts hw write cylinder head sector count maxAttempts drive

def cylinderOf (lba : Nat) : Nat := lba / (sectorsPerTrack * heads)

def headOf (lba : Nat) : Nat := lba / sectorsPerTrack % heads

def sectorOf (lba : Nat) : Nat := lba % sectorsPerTrack + 1

/-- `count` of `FloppyIo`: not past the end of the track, of the request or of the DMA buffer -/
def runLength (lba remaining : Nat) : Nat :=
  min (min (sectorsPerTrack - (sectorOf lba - 1)) remaining) floppyMaxRun

/-- `PerformTransfer` for some sectors. `FloppyIo` does not look at its result. -/
def transferSectors (virt : UInt32) (w : World) (io : Vfs.Copy.Transfer) (count : Nat) :
    World × Vfs.Copy.Transfer :=
  let (_, mem, io) := performTransfer w.mem virt io (.ofNat (count * sectorSize))
  ({ w with mem }, io)

/-- How `FloppyIo` ends -/
structure Finish where
  error : Nat
  io : Vfs.Copy.Transfer
  world : World
  drive : Drive
  sent : List Sent

/-- The loop of `FloppyIo`; `none` if the fuel is too little -/
def ioLoop (hw : Nat → Answer) (virt : UInt32) (write : Bool) :
    Nat → Nat → Nat → Vfs.Copy.Transfer → World → Drive → Option Finish
  | fuel, lba, remaining, io, w, drive =>
    if remaining = 0 then some ⟨0, io, w, drive, []⟩
    else
      match fuel with
      | 0 => none
      | fuel + 1 =>
        let count := runLength lba remaining
        let (w, io) := if write then transferSectors virt w io count else (w, io)
        let (error, done, drive, sent) := floppyTransferSectors hw drive write
          (cylinderOf lba) (headOf lba) (sectorOf lba) count
        let w := sent.foldl (Sent.perform virt) w
        if error ≠ 0 then some ⟨error, io, w, drive, sent⟩
        else
          let (w, io) := if !write then transferSectors virt w io done else (w, io)
          (ioLoop hw virt write fuel (lba + done) (remaining - done) io w drive).map fun r =>
            { r with sent := sent ++ r.sent }

/-- `FloppyIo`. The loop turns at most once for each sector. -/
def floppyIo (hw : Nat → Answer) (virt : UInt32) (io : Vfs.Copy.Transfer) (w : World)
    (drive : Drive) : Option Finish :=
  let write : Bool := io.direction = .write
  let offset := io.offset.toNat
  let length := io.lengthRemaining.toNat
  if offset % sectorSize ≠ 0 ∨ length % sectorSize ≠ 0 then some ⟨einval, io, w, drive, []⟩
  else if floppySize ≤ offset ∨ floppySize - offset < length then
    some ⟨einval, io, w, drive, []⟩
  else if length = 0 then some ⟨0, io, w, drive, []⟩
  else ioLoop hw virt write (length / sectorSize) (offset / sectorSize) (length / sectorSize) io w
    drive

/-! ## One command -/

/-- A command for `k` sectors from `lba` on: it stays on one track and in the DMA buffer, it names
the place of `lba`, and the heads are there. -/
structure Right (write : Bool) (lba k : Nat) (s : Sent) : Prop where
  pos : 0 < k
  track : lba % sectorsPerTrack + k ≤ sectorsPerTrack
  buffer : k ≤ floppyMaxRun
  bytes : s.bytes = command write (cylinderOf lba) (headOf lba) (sectorOf lba) k
  dma : s.dmaLength = k * sectorSize
  there : s.cylinder = cylinderOf lba

/-- A command that failed -/
def Failed (write : Bool) (lba count : Nat) (s : Sent) : Prop :=
  s.clean = false ∧ ∃ k ≤ count, Right write lba k s

/-- What `FloppyTransferSectors` returns -/
inductive Tried (write : Bool) (lba count : Nat) : Nat × Nat × Drive × List Sent → Prop
  | gaveUp {error done : Nat} {drive : Drive} {sent : List Sent} : error ≠ 0 →
      (∀ s ∈ sent, Failed write lba count s) → Tried write lba count (error, done, drive, sent)
  | moved {done : Nat} {drive : Drive} {failed : List Sent} {last : Sent} :
      (∀ s ∈ failed, Failed write lba count s) → last.clean = true → Right write lba done last →
      done ≤ count → (write = true → done = count) →
      Tried write lba count (0, done, drive, failed ++ [last])

variable {write : Bool} {lba count k n : Nat} {s : Sent} {virt : UInt32} {w w' : World}
  {io : Vfs.Copy.Transfer} {drive : Drive} {hw : Nat → Answer}

theorem seekTo_there {a : Answer} {cylinder : Nat} (h : (seekTo a drive cylinder).1 = 0) :
    (seekTo a drive cylinder).2.currentCylinder = cylinder := by
  unfold seekTo at h ⊢
  split at h
  · next hne =>
    rw [if_pos hne]
    unfold floppySeek at h ⊢
    cases hok : a.seek.ok with
    | false =>
      rw [hok] at h
      cases h
    | true => rfl
  · next heq =>
    rw [if_neg heq]
    exact not_not.mp heq

theorem transferAttempts_tried (hpos : 0 < count)
    (htrack : lba % sectorsPerTrack + count ≤ sectorsPerTrack) (hbuffer : count ≤ floppyMaxRun)
    (left : Nat) (drive : Drive) :
    Tried write lba count (transferAttempts hw write (cylinderOf lba) (headOf lba) (sectorOf lba)
      count left drive) := by
  induction left generalizing drive with
  | zero => exact .gaveUp (by decide) nofun
  | succ left ih =>
    unfold transferAttempts
    dsimp only
    generalize hseek : seekTo _ _ _ = sought
    obtain ⟨error, drive₁⟩ := sought
    dsimp only
    split
    · exact ih drive₁
    · next hzero =>
      have hthere : drive₁.currentCylinder = cylinderOf lba := by
        have h := @seekTo_there _ _ _ (by rw [hseek]; exact not_not.mp hzero)
        rwa [hseek] at h
      generalize hrun : (if write = true ∨ maxAttempts - (left + 1) < 3 then count else 1) = run
      have hle : 0 < run ∧ run ≤ count := by
        rw [← hrun]
        split <;> omega
      have hall : write = true → run = count := by
        intro hw
        rw [← hrun, if_pos (.inl hw)]
      unfold floppyTransferRun
      dsimp only
      generalize hsent : Sent.mk _ _ _ _ _ = sent
      have hright : Right write lba run sent := by
        rw [← hsent]
        exact ⟨hle.1, by omega, by omega, rfl, rfl, hthere⟩
      have hclean : sent.clean = decide (runStatus write (hw drive.attempts).result = 0) := by
        rw [← hsent]
      split
      · next hok =>
        rw [hok] at hclean
        exact @Tried.moved _ _ _ run _ [] sent (fun s hs => by cases hs) hclean hright hle.2 hall
      · next hbad =>
        have hfailed : Failed write lba count sent :=
          ⟨by rw [hclean]; exact decide_eq_false hbad, run, hle.2, hright⟩
        split
        · exact .gaveUp (by decide) fun s hs => by rwa [List.mem_singleton.mp hs]
        · -- another attempt
          generalize hrest : transferAttempts _ _ _ _ _ _ left _ = rest
          have htried := hrest ▸ ih { drive₁ with
            needReset := drive₁.needReset || (hw drive.attempts).result.isNone }
          cases htried with
          | gaveUp herror hsents =>
            refine .gaveUp herror fun s hs => ?_
            rcases List.mem_cons.mp hs with rfl | hs
            · exact hfailed
            · exact hsents s hs
          | @moved done drive₂ failed last hsents hlast hr hdone hw =>
            refine @Tried.moved _ _ _ done drive₂ (sent :: failed) last (fun s hs => ?_) hlast hr
              hdone hw
            rcases List.mem_cons.mp hs with rfl | hs
            · exact hfailed
            · exact hsents s hs

/-! ## What the controller does -/

/-- The disk is read and the DMA buffer is written at the right place. -/
theorem Right.start_eq (h : Right write lba k s) (hdisk : lba + k ≤ 2880) :
    s.start = lba * sectorSize := by
  have hpos := h.pos
  have hc : s.byte 2 = lba / 36 := by
    unfold Sent.byte
    rw [h.bytes]
    simp only [command, cylinderOf, sectorsPerTrack, heads, List.getD_cons_succ,
      List.getD_cons_zero, UInt8.toNat_ofNat']
    omega
  have hh : s.byte 3 = lba / 18 % 2 := by
    unfold Sent.byte
    rw [h.bytes]
    simp only [command, headOf, sectorsPerTrack, heads, List.getD_cons_succ, List.getD_cons_zero,
      UInt8.toNat_ofNat']
    omega
  have hs : s.byte 4 = lba % 18 + 1 := by
    unfold Sent.byte
    rw [h.bytes]
    simp only [command, sectorOf, sectorsPerTrack, List.getD_cons_succ, List.getD_cons_zero,
      UInt8.toNat_ofNat']
    omega
  unfold Sent.start
  rw [hc, hh, hs]
  simp only [heads, sectorsPerTrack]
  congr 1
  omega

theorem Right.isWrite_iff (h : Right write lba k s) : s.isWrite ↔ write = true := by
  unfold Sent.isWrite Sent.byte
  rw [h.bytes]
  cases write <;> simp [command]

/-- Only the DMA buffer and the sectors of one run of a write can have changed. -/
structure Aside (virt : UInt32) (write : Bool) (lba count : Nat) (w w' : World) : Prop where
  mem : ∀ x, (write = true ∨ floppyMaxRun * sectorSize ≤ (x - virt).toNat) → w'.mem x = w.mem x
  disk : ∀ i, (write = false ∨ i < lba * sectorSize ∨ (lba + count) * sectorSize ≤ i) →
    w'.disk i = w.disk i

theorem Aside.refl : Aside virt write lba count w w := ⟨fun _ _ => rfl, fun _ _ => rfl⟩

theorem Aside.trans {w'' : World} (h : Aside virt write lba count w w')
    (h' : Aside virt write lba count w' w'') : Aside virt write lba count w w'' :=
  ⟨fun x hx => (h'.mem x hx).trans (h.mem x hx), fun i hi => (h'.disk i hi).trans (h.disk i hi)⟩

theorem Right.aside (h : Right write lba k s) (hk : k ≤ count) (hdisk : lba + count ≤ 2880) :
    Aside virt write lba count w (s.perform virt w) := by
  have hstart := h.start_eq (by omega)
  have hbuffer := h.buffer
  unfold Sent.perform
  cases write with
  | true =>
    rw [if_pos (h.isWrite_iff.mpr rfl)]
    refine ⟨fun _ _ => rfl, fun i hi => if_neg ?_⟩
    rw [hstart, h.dma]
    simp only [sectorSize, Bool.true_eq_false, false_or] at hi ⊢
    omega
  | false =>
    rw [if_neg (fun hw => Bool.false_ne_true (h.isWrite_iff.mp hw))]
    refine ⟨fun x hx => if_neg ?_, fun _ _ => rfl⟩
    rw [h.dma]
    simp only [sectorSize, Bool.false_eq_true, false_or] at hx ⊢
    unfold floppyMaxRun at hx hbuffer
    omega

theorem failed_aside {failed : List Sent} (h : ∀ s ∈ failed, Failed write lba count s)
    (hdisk : lba + count ≤ 2880) :
    Aside virt write lba count w (failed.foldl (Sent.perform virt) w) := by
  induction failed generalizing w with
  | nil => exact .refl
  | cons s failed ih =>
    obtain ⟨-, k, hk, hright⟩ := h s List.mem_cons_self
    exact (hright.aside hk hdisk).trans (ih fun s hs => h s (List.mem_cons_of_mem _ hs))

theorem place_sub (i : Nat) (hi : i < 4294967296) : (place virt i - virt).toNat = i := by
  rw [place, UInt32.add_comm, UInt32.add_sub_cancel, UInt32.toNat_ofNat']
  omega

/-- The data of a command that succeeds: from the disk, or from the DMA buffer -/
def Carried (virt : UInt32) (write : Bool) (lba k : Nat) (w w' : World) : Prop :=
  ∀ i < k * sectorSize,
    if write then w'.disk (lba * sectorSize + i) = w.mem (place virt i)
    else w'.mem (place virt i) = w.disk (lba * sectorSize + i)

theorem Right.carried (h : Right write lba k s) (hclean : s.clean = true)
    (hdisk : lba + k ≤ 2880) : Carried virt write lba k w (s.perform virt w) := by
  have hstart := h.start_eq hdisk
  have hbuffer := h.buffer
  intro i hi
  have hi' : i < 4096 := by
    unfold floppyMaxRun at hbuffer
    unfold sectorSize at hi
    omega
  unfold Sent.perform
  cases write with
  | true =>
    rw [if_pos rfl, if_pos (h.isWrite_iff.mpr rfl)]
    dsimp only
    rw [hstart, h.dma, if_pos (by omega), if_pos hclean]
    congr 2
    omega
  | false =>
    rw [if_neg Bool.false_ne_true, if_neg (fun hw => Bool.false_ne_true (h.isWrite_iff.mp hw))]
    dsimp only
    rw [place_sub i (by omega), hstart, h.dma, if_pos hi, if_pos hclean]

/-! ## One run with its attempts -/

variable {r : Nat × Nat × Drive × List Sent}

theorem Tried.aside (h : Tried write lba count r) (hdisk : lba + count ≤ 2880) :
    Aside virt write lba count w (r.2.2.2.foldl (Sent.perform virt) w) := by
  cases h with
  | gaveUp _ hfailed => exact failed_aside hfailed hdisk
  | moved hfailed _ hright hle _ =>
    rw [List.foldl_append]
    exact (failed_aside hfailed hdisk).trans (hright.aside hle hdisk)

/-- The attempts that failed before do no harm. -/
theorem Tried.carried (h : Tried write lba count r) (hdisk : lba + count ≤ 2880) (hok : r.1 = 0) :
    Carried virt write lba r.2.1 w (r.2.2.2.foldl (Sent.perform virt) w) := by
  cases h with
  | gaveUp herror _ => exact absurd hok herror
  | @moved done drive failed last hfailed hclean hright hle _ =>
    have haside := @failed_aside write lba count virt w failed hfailed hdisk
    intro i hi
    have hlast := @Right.carried write lba done last virt (failed.foldl (Sent.perform virt) w)
      hright hclean (by omega) i hi
    dsimp only
    rw [List.foldl_append]
    cases write with
    | true =>
      rw [if_pos rfl] at hlast ⊢
      exact hlast.trans (haside.mem _ (.inl rfl))
    | false =>
      rw [if_neg Bool.false_ne_true] at hlast ⊢
      exact hlast.trans (haside.disk _ (.inl rfl))

/-- Commands one after the other: each begins where the last one that succeeded has ended. -/
inductive Orderly (write : Bool) (last : Nat) : Nat → List Sent → Nat → Prop
  | nil (lba : Nat) : Orderly write last lba [] lba
  | cons {lba k fin : Nat} {s : Sent} {sent : List Sent} : Right write lba k s → lba + k ≤ last →
      Orderly write last (if s.clean then lba + k else lba) sent fin →
      Orderly write last lba (s :: sent) fin

theorem Orderly.append {last a b c : Nat} {sent sent' : List Sent}
    (h : Orderly write last a sent b) (h' : Orderly write last b sent' c) :
    Orderly write last a (sent ++ sent') c := by
  induction h with
  | nil => exact h'
  | cons hright hlast _ ih => exact .cons hright hlast (ih h')

/-- Where a sequence of commands ends can be read off it. -/
theorem Orderly.unique {last a b c : Nat} {sent : List Sent} (h : Orderly write last a sent b)
    (h' : Orderly write last a sent c) : b = c := by
  induction h with
  | nil =>
    cases h'
    rfl
  | @cons lba k fin s sent hright _ _ ih =>
    cases h' with
    | @cons _ k' _ _ _ hright' _ hrest' =>
      have hk : k = k' := by
        have := hright.dma.symm.trans hright'.dma
        unfold sectorSize at this
        omega
      subst hk
      exact ih hrest'

theorem failed_orderly {last : Nat} {failed : List Sent}
    (h : ∀ s ∈ failed, Failed write lba count s) (hlast : lba + count ≤ last) :
    Orderly write last lba failed lba := by
  induction failed with
  | nil => exact .nil lba
  | cons s failed ih =>
    obtain ⟨hclean, k, hk, hright⟩ := h s List.mem_cons_self
    refine .cons hright (by omega) ?_
    rw [hclean]
    exact ih fun s hs => h s (List.mem_cons_of_mem _ hs)

theorem Tried.orderly {last : Nat} (h : Tried write lba count r) (hlast : lba + count ≤ last) :
    Orderly write last lba r.2.2.2 (if r.1 = 0 then lba + r.2.1 else lba) := by
  cases h with
  | gaveUp herror hfailed =>
    dsimp only
    rw [if_neg herror]
    exact failed_orderly hfailed hlast
  | moved hfailed hclean hright hle _ =>
    refine (failed_orderly hfailed hlast).append (.cons hright (by omega) ?_)
    rw [hclean]
    exact .nil _

theorem runLength_spec {remaining : Nat} (hpos : 0 < remaining) :
    0 < runLength lba remaining ∧ runLength lba remaining ≤ remaining ∧
      lba % sectorsPerTrack + runLength lba remaining ≤ sectorsPerTrack ∧
      runLength lba remaining ≤ floppyMaxRun := by
  unfold runLength sectorOf sectorsPerTrack floppyMaxRun
  omega

end Nolrem.Dev.Floppy
