import Nolrem.Dev.FloppyIo

/-!
# The data of the floppy driver

Which bytes are where when `FloppyIo` returns, and when it does what it should.
-/

namespace Nolrem.Dev.Floppy

open Nolrem.Lib Nolrem.Vfs Nolrem.Vfs.Copy

variable {lba count k n a : Nat} {virt : UInt32} {w w' : World} {io : Vfs.Copy.Transfer}
  {drive : Drive} {hw : Nat → Answer}

/-! ## The data -/

/-- `x` is not in the DMA buffer. -/
def OffBuffer (virt x : UInt32) : Prop := floppyMaxRun * sectorSize ≤ (x - virt).toNat

/-- The first `k` sectors of the buffer at `address` are on the disk from `lba` on. Of memory only
the DMA buffer has changed, and of the disk only the `n` sectors of the request. -/
structure Written (virt address : UInt32) (lba n k : Nat) (w w' : World) : Prop where
  data : ∀ i < k * sectorSize, w'.disk (lba * sectorSize + i) = w.mem (place address i)
  mem : ∀ x, OffBuffer virt x → w'.mem x = w.mem x
  disk : ∀ j, j < lba * sectorSize ∨ (lba + n) * sectorSize ≤ j → w'.disk j = w.disk j

/-- The `k` sectors of the disk from `lba` on are in the buffer at `address`. Of memory only these
and the DMA buffer have changed. -/
structure Read (virt address : UInt32) (lba k : Nat) (w w' : World) : Prop where
  data : ∀ i < k * sectorSize, w'.mem (place address i) = w.disk (lba * sectorSize + i)
  mem : ∀ x, OffBuffer virt x → (∀ i < k * sectorSize, x ≠ place address i) → w'.mem x = w.mem x
  disk : w'.disk = w.disk

theorem offBuffer_ne {x : UInt32} {i : Nat} (h : OffBuffer virt x)
    (hi : i < floppyMaxRun * sectorSize) : x ≠ place virt i := by
  rintro rfl
  unfold OffBuffer floppyMaxRun sectorSize at h
  unfold floppyMaxRun sectorSize at hi
  rw [place_sub i (by omega)] at h
  omega

/-- The buffer of the caller, from `a` sectors on, is none of the driver's. -/
def Private (virt : UInt32) (io : Vfs.Copy.Transfer) (a k : Nat) : Prop :=
  ∀ i < k * sectorSize, OffBuffer virt (place (advanced io a).address i)

theorem Private.copyable {m : Nat} (h : Private virt io a m) (hk : k ≤ m)
    (hrun : k ≤ floppyMaxRun) : (advanced io a).Copyable virt (k * sectorSize) := by
  have hm : k * sectorSize ≤ m * sectorSize := Nat.mul_le_mul_right _ hk
  have hb : k * sectorSize ≤ floppyMaxRun * sectorSize := Nat.mul_le_mul_right _ hrun
  exact .inl fun i hi j hj => offBuffer_ne (h i (Nat.lt_of_lt_of_le hi hm))
    (Nat.lt_of_lt_of_le hj hb)

theorem Private.rest {m : Nat} (h : Private virt io a m) (hk : k ≤ m) :
    Private virt io (a + k) (m - k) := by
  intro i hi
  have := h (k * sectorSize + i) (by unfold sectorSize at hi ⊢; omega)
  rw [advanced_place] at this ⊢
  rwa [Nat.add_mul, Nat.add_assoc]

theorem Tried.buffer {error done : Nat} {sent : List Sent}
    (h : Tried write lba count (error, done, drive, sent)) (herror : error = 0) :
    done ≤ floppyMaxRun := by
  cases h with
  | gaveUp hne _ => exact absurd herror hne
  | moved _ _ hright _ _ => exact hright.buffer

/-- Staging writes to nothing but the DMA buffer. -/
theorem Buffer.stage (h : Buffer io n) (hdir : io.direction = .write) (ha : Accepts io a)
    (hk : 0 < k) (hn : a + k ≤ n) (hrun : k ≤ floppyMaxRun) {m : Nat} (hm : k ≤ m)
    (hpriv : Private virt io a m) (w : World) :
    (∀ x, OffBuffer virt x → (transferSectors virt w (advanced io a) k).1.mem x = w.mem x) ∧
      (transferSectors virt w (advanced io a) k).1.disk = w.disk ∧
      (Accepts io (a + k) → (transferSectors virt w (advanced io a) k).2 = advanced io (a + k) ∧
        ∀ i < k * sectorSize, (transferSectors virt w (advanced io a) k).1.mem (place virt i) =
          w.mem (place (advanced io a).address i)) := by
  by_cases haccepts : Accepts io (a + k)
  · obtain ⟨mem, heq, hcopy⟩ := @Buffer.transfer k n virt w io a h ha hk hn haccepts
    have hcopied := hcopy (hpriv.copyable hm hrun)
    have hdst : (advanced io a).destination virt = virt := by
      unfold Vfs.Copy.Transfer.destination advanced Vfs.Copy.Transfer.moved
      rw [hdir]
    have hsrc : (advanced io a).source virt = (advanced io a).address := by
      unfold Vfs.Copy.Transfer.source advanced Vfs.Copy.Transfer.moved
      rw [hdir]
    rw [hdst, hsrc] at hcopied
    rw [heq]
    refine ⟨fun x hx => hcopied.kept x fun i hi => offBuffer_ne hx ?_, rfl,
      fun _ => ⟨rfl, hcopied.copied⟩⟩
    exact Nat.lt_of_lt_of_le hi (Nat.mul_le_mul_right _ hrun)
  · rw [h.no_transfer ha hk hn haccepts]
    exact ⟨fun _ _ => rfl, rfl, fun hyes => absurd hyes haccepts⟩

/-- Handing over writes to nothing but the buffer of the caller. -/
theorem Buffer.handOver (h : Buffer io n) (hdir : io.direction = .read) (ha : Accepts io a)
    (hk : 0 < k) (hn : a + k ≤ n) (hrun : k ≤ floppyMaxRun) {m : Nat} (hm : k ≤ m)
    (hpriv : Private virt io a m) (w : World) (haccepts : Accepts io (a + k)) :
    ∃ mem, transferSectors virt w (advanced io a) k = ({ w with mem }, advanced io (a + k)) ∧
      CopiedBytes (advanced io a).address virt (k * sectorSize) w.mem mem := by
  obtain ⟨mem, heq, hcopy⟩ := @Buffer.transfer k n virt w io a h ha hk hn haccepts
  have hcopied := hcopy (hpriv.copyable hm hrun)
  have hdst : (advanced io a).destination virt = (advanced io a).address := by
    unfold Vfs.Copy.Transfer.destination advanced Vfs.Copy.Transfer.moved
    rw [hdir]
  have hsrc : (advanced io a).source virt = virt := by
    unfold Vfs.Copy.Transfer.source advanced Vfs.Copy.Transfer.moved
    rw [hdir]
  rw [hdst, hsrc] at hcopied
  exact ⟨mem, heq, hcopied⟩

theorem Written.cons {w₁ w₂ w₃ : World} {remaining D : Nat} (hle : k ≤ remaining)
    (hpriv : Private virt io a remaining)
    (hstaged : ∀ i < k * sectorSize,
      w₁.mem (place virt i) = w.mem (place (advanced io a).address i))
    (hmem : ∀ x, OffBuffer virt x → w₁.mem x = w.mem x) (hdisk : w₁.disk = w.disk)
    (haside : Aside virt true lba k w₁ w₂) (hcarried : Carried virt true lba k w₁ w₂)
    (hD : k + D ≤ remaining)
    (h : Written virt (advanced io (a + k)).address (lba + k) (remaining - k) D w₂ w₃) :
    Written virt (advanced io a).address lba remaining (k + D) w w₃ where
  data := by
    intro i hi
    rw [Nat.add_mul] at hi
    by_cases hik : i < k * sectorSize
    · rw [h.disk _ (.inl (by rw [Nat.add_mul]; omega))]
      have hc := hcarried i hik
      rw [if_pos rfl] at hc
      rw [hc, hstaged i hik]
    · obtain ⟨j, rfl⟩ := Nat.exists_eq_add_of_le (Nat.le_of_not_lt hik)
      have hd := h.data j (by omega)
      rw [Nat.add_mul, Nat.add_assoc] at hd
      have hplace : place (advanced io (a + k)).address j =
          place (advanced io a).address (k * sectorSize + j) := by
        rw [advanced_place, advanced_place, Nat.add_mul, Nat.add_assoc]
      rw [hd, hplace]
      have hoff := hpriv (k * sectorSize + j) (by
        have := Nat.mul_le_mul_right sectorSize hD
        rw [Nat.add_mul] at this
        omega)
      rw [haside.mem _ (.inl rfl), hmem _ hoff]
  mem := by
    intro x hx
    rw [h.mem x hx, haside.mem x (.inl rfl), hmem x hx]
  disk := by
    intro j hj
    have hm := Nat.mul_le_mul_right sectorSize hle
    rw [h.disk j, haside.disk j, hdisk]
    · rw [Nat.add_mul] at hj ⊢
      omega
    · rw [show lba + k + (remaining - k) = lba + remaining by omega]
      rw [Nat.add_mul lba k]
      omega

theorem Written.refl (virt address : UInt32) (lba n : Nat) (w : World) :
    Written virt address lba n 0 w w where
  data := fun i hi => by
    rw [Nat.zero_mul] at hi
    omega
  mem := fun _ _ => rfl
  disk := fun _ _ => rfl

theorem ioLoop_writes (h : Buffer io n) (hdir : io.direction = .write) (fuel lba remaining a : Nat)
    (drive : Drive) (ha : Accepts io (a + (controllerMoves hw true fuel lba remaining drive).1))
    (hn : a + remaining ≤ n) (hdisk : lba + remaining ≤ 2880)
    (hpriv : Private virt io a remaining) (w : World) {r : Finish}
    (hr : ioLoop hw virt true fuel lba remaining (advanced io a) w drive = some r) :
    Written virt (advanced io a).address lba remaining
      (controllerMoves hw true fuel lba remaining drive).1 w r.world := by
  induction fuel generalizing lba remaining a w drive r with
  | zero =>
    by_cases h0 : remaining = 0
    · rw [ioLoop, if_pos h0] at hr
      cases hr
      exact .refl ..
    · rw [ioLoop, if_neg h0] at hr
      cases hr
  | succ fuel ih =>
    by_cases h0 : remaining = 0
    · rw [ioLoop, if_pos h0] at hr
      cases hr
      rw [controllerMoves, if_pos h0]
      exact .refl ..
    obtain ⟨count, error, done, drive₁, sent, hpos, hle, hcount, htried, hmoves, hloop⟩ :=
      ioLoop_turn hw virt true fuel lba drive h0
    rw [hmoves] at ha ⊢
    rw [hloop] at hr
    have hdisk' : lba + count ≤ 2880 := by omega
    have ha' : Accepts io a := ha.mono (by omega)
    obtain ⟨hmem, hsame, hstaged⟩ :=
      h.stage hdir ha' hpos (by omega) hcount hle hpriv w
    have haside := @Tried.aside true lba count virt
      (transferSectors virt w (advanced io a) count).1 _ htried hdisk'
    simp only [if_true, Bool.not_true, Bool.false_eq_true, if_false] at hr
    by_cases herror : error = 0
    · obtain ⟨-, -, hall⟩ := htried.moved_all herror
      obtain rfl := hall rfl
      rw [if_neg (not_not.mpr herror)] at hr ha ⊢
      dsimp only at ha ⊢
      obtain ⟨hio, hdata⟩ := hstaged (ha.mono (by omega))
      rw [hio] at hr
      obtain ⟨r', hr', rfl⟩ := Option.map_eq_some_iff.mp hr
      rw [← Nat.add_assoc] at ha
      have hrest := ih (lba + done) (remaining - done) (a + done) drive₁ ha (by omega) (by omega)
        (hpriv.rest hle) _ hr'
      have hfits := @controllerMoves_le true hw fuel (lba + done) (remaining - done) drive₁
      exact .cons hle hpriv hdata hmem hsame haside (htried.carried hdisk' herror)
        (by omega) hrest
    · rw [if_pos herror] at hr ha ⊢
      cases hr
      refine ⟨fun i hi => ?_, fun x hx => ?_, fun j hj => ?_⟩
      · dsimp only at hi
        rw [Nat.zero_mul] at hi
        omega
      · exact (haside.mem x (.inl rfl)).trans (hmem x hx)
      · refine (haside.disk j (.inr (hj.imp_right fun hj => ?_))).trans (congrFun hsame j)
        exact Nat.le_trans (Nat.mul_le_mul_right _ (by omega)) hj

theorem Read.refl (virt address : UInt32) (lba : Nat) (w : World) :
    Read virt address lba 0 w w where
  data := fun i hi => by
    rw [Nat.zero_mul] at hi
    omega
  mem := fun _ _ _ => rfl
  disk := rfl

theorem Read.cons {w₁ w₃ : World} {mem : Memory} {remaining D k' : Nat} (h : Buffer io n)
    (hn : a + remaining ≤ n) (hD : k + D ≤ remaining) (hpriv : Private virt io a remaining)
    (haside : Aside virt false lba k' w w₁) (hcarried : Carried virt false lba k w w₁)
    (hcopied : CopiedBytes (advanced io a).address virt (k * sectorSize) w₁.mem mem)
    (hrest : Read virt (advanced io (a + k)).address (lba + k) D { w₁ with mem } w₃) :
    Read virt (advanced io a).address lba (k + D) w w₃ where
  data := by
    intro i hi
    rw [Nat.add_mul] at hi
    have hm := Nat.mul_le_mul_right sectorSize hD
    rw [Nat.add_mul] at hm
    by_cases hik : i < k * sectorSize
    · rw [hrest.mem _ (hpriv i (by omega)) fun j hj => ?_]
      · have hc := hcarried i hik
        rw [if_neg Bool.false_ne_true] at hc
        exact (hcopied.copied i hik).trans hc
      · -- what comes later goes to other places of the buffer
        intro he
        have hmem := h.memory
        have hna := Nat.mul_le_mul_right sectorSize hn
        rw [Nat.add_mul] at hna
        rw [advanced_place, advanced_place, Nat.add_mul a k, Nat.add_assoc] at he
        have := @place_distinct io.address (n * sectorSize) (by omega) (a * sectorSize + i)
          (by omega) (a * sectorSize + (k * sectorSize + j)) (by omega) he
        omega
    · obtain ⟨j, rfl⟩ := Nat.exists_eq_add_of_le (Nat.le_of_not_lt hik)
      have hd := hrest.data j (by omega)
      rw [Nat.add_mul lba k, Nat.add_assoc] at hd
      have hplace : place (advanced io (a + k)).address j =
          place (advanced io a).address (k * sectorSize + j) := by
        rw [advanced_place, advanced_place, Nat.add_mul, Nat.add_assoc]
      rw [hplace] at hd
      exact hd.trans (haside.disk _ (.inl rfl))
  mem := by
    intro x hx hne
    have hlater : ∀ i < D * sectorSize, x ≠ place (advanced io (a + k)).address i := by
      intro i hi
      have := hne (k * sectorSize + i) (by rw [Nat.add_mul]; omega)
      rw [advanced_place, Nat.add_mul, Nat.add_assoc, ← advanced_place]
      exact this
    rw [hrest.mem x hx hlater]
    refine (hcopied.kept x fun i hi => hne i (by rw [Nat.add_mul]; omega)).trans ?_
    exact haside.mem x (.inr hx)
  disk := by
    rw [hrest.disk]
    exact funext fun i => haside.disk i (.inl rfl)

theorem ioLoop_reads (h : Buffer io n) (hdir : io.direction = .read) (fuel lba remaining a : Nat)
    (drive : Drive) (ha : Accepts io (a + (controllerMoves hw false fuel lba remaining drive).1))
    (hn : a + remaining ≤ n) (hdisk : lba + remaining ≤ 2880)
    (hpriv : Private virt io a remaining) (w : World) {r : Finish}
    (hr : ioLoop hw virt false fuel lba remaining (advanced io a) w drive = some r) :
    Read virt (advanced io a).address lba
      (controllerMoves hw false fuel lba remaining drive).1 w r.world := by
  induction fuel generalizing lba remaining a w drive r with
  | zero =>
    by_cases h0 : remaining = 0
    · rw [ioLoop, if_pos h0] at hr
      cases hr
      exact .refl ..
    · rw [ioLoop, if_neg h0] at hr
      cases hr
  | succ fuel ih =>
    by_cases h0 : remaining = 0
    · rw [ioLoop, if_pos h0] at hr
      cases hr
      rw [controllerMoves, if_pos h0]
      exact .refl ..
    obtain ⟨count, error, done, drive₁, sent, hpos, hle, hcount, htried, hmoves, hloop⟩ :=
      ioLoop_turn hw virt false fuel lba drive h0
    rw [hmoves] at ha ⊢
    rw [hloop] at hr
    have hdisk' : lba + count ≤ 2880 := by omega
    have haside := @Tried.aside false lba count virt w _ htried hdisk'
    simp only [Bool.false_eq_true, if_false, Bool.not_false, if_true] at hr
    by_cases herror : error = 0
    · obtain ⟨hdone, hdonele, -⟩ := htried.moved_all herror
      rw [if_neg (not_not.mpr herror)] at hr ha ⊢
      dsimp only at ha ⊢
      obtain ⟨mem, heq, hcopied⟩ := h.handOver hdir (ha.mono (by omega)) hdone (by omega)
        (htried.buffer herror) (show done ≤ remaining by omega) hpriv
        (sent.foldl (Sent.perform virt) w) (ha.mono (by omega))
      rw [heq] at hr
      obtain ⟨r', hr', rfl⟩ := Option.map_eq_some_iff.mp hr
      rw [← Nat.add_assoc] at ha
      have hrest := ih (lba + done) (remaining - done) (a + done) drive₁ ha (by omega) (by omega)
        (hpriv.rest (by omega)) _ hr'
      have hfits := @controllerMoves_le false hw fuel (lba + done) (remaining - done) drive₁
      exact .cons h hn (by omega) hpriv haside (htried.carried hdisk' herror) hcopied hrest
    · rw [if_pos herror] at hr ha ⊢
      cases hr
      refine ⟨fun i hi => ?_, fun x hx _ => haside.mem x (.inr hx),
        funext fun i => haside.disk i (.inl rfl)⟩
      dsimp only at hi
      rw [Nat.zero_mul] at hi
      omega

/-! ## The request -/

/-- The first sector of a request -/
def firstLba (io : Vfs.Copy.Transfer) : Nat := io.offset.toNat / sectorSize

/-- How many sectors a request has -/
def sectors (io : Vfs.Copy.Transfer) : Nat := io.lengthRemaining.toNat / sectorSize

/-- Whole sectors of the disk, and a buffer in memory that is none of the driver's -/
structure Request (virt : UInt32) (io : Vfs.Copy.Transfer) : Prop where
  offset : io.offset.toNat % sectorSize = 0
  length : io.lengthRemaining.toNat % sectorSize = 0
  inside : io.offset.toNat + io.lengthRemaining.toNat ≤ floppySize
  memory : io.address.toNat + io.lengthRemaining.toNat ≤ 4294967296
  buffer : ∀ i < io.lengthRemaining.toNat, OffBuffer virt (place io.address i)

/-- What is promised of a request. The commands are right, and those that succeed go through the
sectors in order. The data of the sectors that were completed is in its place, the transfer is as
far as they are, and without an error they are all. -/
def Correct (virt : UInt32) (io : Vfs.Copy.Transfer) (w : World) (r : Finish) : Prop :=
  ∃ done, Orderly (io.direction = .write) (firstLba io + sectors io) (firstLba io) r.sent
      (firstLba io + done) ∧
    (r.error = 0 → done = sectors io) ∧ r.io = advanced io done ∧
    if io.direction = .write then
      Written virt io.address (firstLba io) (sectors io) done w r.world
    else Read virt io.address (firstLba io) done w r.world

theorem advanced_zero (io : Vfs.Copy.Transfer) : advanced io 0 = io := by
  unfold advanced
  rw [Nat.zero_mul]
  exact io.moved_zero

theorem Request.mk_buffer (h : Request virt io) : Buffer io (sectors io) := by
  have hl := h.length
  have hi := h.inside
  have hm := h.memory
  unfold floppySize sectorsPerTrack heads at hi
  unfold sectorSize at hl hi
  unfold sectors sectorSize
  constructor
  · unfold sectorSize
    omega
  · unfold sectorSize
    omega
  · omega

theorem Request.last (h : Request virt io) : firstLba io + sectors io ≤ 2880 := by
  have ho := h.offset
  have hl := h.length
  have hi := h.inside
  unfold floppySize sectorsPerTrack heads at hi
  unfold sectorSize at ho hl hi
  unfold firstLba sectors sectorSize
  omega

theorem Request.mk_private (h : Request virt io) : Private virt io 0 (sectors io) := by
  intro i hi
  rw [advanced_zero]
  refine h.buffer i ?_
  have := h.mk_buffer.length
  omega

/-- A request for no sector -/
theorem Correct.of_empty {error : Nat} (h0 : sectors io = 0) :
    Correct virt io w ⟨error, io, w, drive, []⟩ := by
  refine ⟨0, ?_, fun _ => h0.symm, (advanced_zero io).symm, ?_⟩
  · exact .nil _
  · split
    · exact .refl ..
    · exact .refl ..

/-- What the controller makes of a request: the sectors that it completes, and the length of the
run that it gives up on -/
def requestMoves (hw : Nat → Answer) (io : Vfs.Copy.Transfer) (drive : Drive) : Nat × Nat :=
  controllerMoves hw (io.direction = .write) (sectors io) (firstLba io) (sectors io) drive

/-- `PerformTransfer` accepts the sectors that the controller completes, and not those of a write
that it gives up on. -/
structure Even (hw : Nat → Answer) (io : Vfs.Copy.Transfer) (drive : Drive) : Prop where
  completed : Accepts io (requestMoves hw io drive).1
  staged : io.direction = .write → (requestMoves hw io drive).2 ≠ 0 →
    ¬ Accepts io ((requestMoves hw io drive).1 + (requestMoves hw io drive).2)

/-- The loop of `FloppyIo` keeps its promise if and only if `PerformTransfer` accepts as much as it
should. -/
theorem ioLoop_correct (hw : Nat → Answer) (h : Request virt io) (drive : Drive) (w : World) :
    ∃ r, ioLoop hw virt (io.direction = .write) (sectors io) (firstLba io) (sectors io) io w drive =
        some r ∧ (Correct virt io w r ↔ Even hw io drive) := by
  have hbuf := h.mk_buffer
  have hlast := h.last
  have hpriv := h.mk_private
  have hbehind : Behind io 0 0 := ⟨Nat.le_refl _, .inl rfl, fun _ => rfl⟩
  obtain ⟨r, hr, hends⟩ := @ioLoop_ends (decide (io.direction = .write)) _ virt io hw hbuf
    (sectors io) (firstLba io) (sectors io) 0 0 hbehind (Nat.le_refl _) (by omega) w drive
  change LoopEnds _ _ _ _ _ (requestMoves hw io drive) r at hends
  have hr' := hr
  rw [advanced_zero] at hr
  refine ⟨r, hr, ?_⟩
  obtain ⟨a, hio, ha, hiff⟩ := hends.transfer
  simp only [Nat.zero_add] at hiff ha
  have heven : Even hw io drive ↔ a = (requestMoves hw io drive).1 := by
    refine Iff.trans ⟨fun he => ⟨he.completed, fun hd => he.staged (of_decide_eq_true hd)⟩,
      fun he => ⟨he.1, fun hd => he.2 (decide_eq_true hd)⟩⟩ hiff.symm
  rw [heven]
  have hfits := hends.fits
  constructor
  · rintro ⟨done, horderly, -, htransfer, -⟩
    have hdone := horderly.unique hends.orderly
    obtain rfl : done = _ := Nat.add_left_cancel hdone
    exact advanced_injective (by omega) (by omega) (hio.symm.trans htransfer)
  · intro hlevel
    refine ⟨_, hends.orderly, fun herror => ?_, by rw [hio, hlevel], ?_⟩
    · exact hends.completed (hends.error.mp herror)
    · have hacc := (hiff.mp hlevel).1
      cases hdir : io.direction with
      | write =>
        simp only [hdir, requestMoves, decide_true] at hr' hacc ⊢
        rw [if_pos trivial]
        have hwritten := ioLoop_writes hbuf hdir (sectors io) (firstLba io) (sectors io) 0 drive
          (by rw [Nat.zero_add]; exact hacc) (by omega) hlast hpriv w hr'
        rw [advanced_zero] at hwritten
        exact hwritten
      | read =>
        simp only [hdir, requestMoves, reduceCtorEq, decide_false] at hr' hacc ⊢
        rw [if_neg not_false]
        have hread := ioLoop_reads hbuf hdir (sectors io) (firstLba io) (sectors io) 0 drive
          (by rw [Nat.zero_add]; exact hacc) (by omega) hlast hpriv w hr'
        rw [advanced_zero] at hread
        exact hread

/--
`FloppyIo` moves every sector that the controller completes once and in order, and its transfer
is as far as these, if and only if `PerformTransfer` accepts them and does not accept the run of
a write that the controller gives up on.
-/
theorem floppy_io_correct_iff (hw : Nat → Answer) (w : World) (drive : Drive)
    (h : Request virt io) : ∃ r, floppyIo hw virt io w drive = some r ∧
      (Correct virt io w r ↔ Even hw io drive) := by
  have hempty : sectors io = 0 → Even hw io drive := by
    intro h0
    have hmoves : requestMoves hw io drive = (0, 0) := by
      unfold requestMoves
      rw [h0]
      rfl
    refine ⟨?_, ?_⟩
    · rw [hmoves]
      exact .inl rfl
    · rw [hmoves]
      exact fun _ hne => absurd rfl hne
  have hoffset := h.offset
  have hlength := h.length
  have hinside := h.inside
  unfold floppyIo
  dsimp only
  rw [if_neg (by rw [hoffset, hlength]; simp)]
  split
  · -- nothing lies behind the end of the disk
    have h0 : sectors io = 0 := by
      unfold sectors
      rw [show io.lengthRemaining.toNat = 0 by omega]
      rfl
    exact ⟨_, rfl, iff_of_true (.of_empty h0) (hempty h0)⟩
  · split
    · next h0 =>
      have h0' : sectors io = 0 := by
        unfold sectors
        rw [h0]
        rfl
      exact ⟨_, rfl, iff_of_true (.of_empty h0') (hempty h0')⟩
    · exact ioLoop_correct hw h drive w

/-- A controller that moves the data, unless the disk is write protected -/
def controller (readOnly : Bool) : Nat → Answer := fun _ =>
  { reset := ⟨true, false⟩, calibrate := ⟨true, false⟩, seek := ⟨true, false⟩
    result := some ⟨0, if readOnly then 2 else 0, 0, 2⟩, junk := fun _ => 0 }

/-- A request for the first sector, with a buffer of the kernel -/
def firstSector (direction : TransferDirection) : Vfs.Copy.Transfer :=
  ⟨0xC1000000, 512, 0, direction, .intraKernel⟩

def blank : World := ⟨fun _ => 0, fun _ => 0⟩

def parked : Drive := ⟨0, false, 0⟩

theorem firstSector_request (direction : TransferDirection) :
    Request 0xC2000000 (firstSector direction) where
  offset := by cases direction <;> rfl
  length := by cases direction <;> rfl
  inside := by cases direction <;> decide
  memory := by cases direction <;> decide
  buffer := by
    intro i hi
    have hi' : i < 512 := hi
    have hp : (place (firstSector direction).address i).toNat = 3238002688 + i :=
      place_toNat (by change 3238002688 + i < 4294967296; omega)
    unfold OffBuffer floppyMaxRun sectorSize
    rw [UInt32.toNat_sub, hp]
    change 4096 ≤ (4294967296 - 3254779904 + (3238002688 + i)) % 4294967296
    omega

theorem floppy_io_correct_iff_read : ∃ r,
    floppyIo (controller false) 0xC2000000 (firstSector .read) blank parked = some r ∧
      Correct 0xC2000000 (firstSector .read) blank r := by
  obtain ⟨r, hr, hiff⟩ := floppy_io_correct_iff (controller false) blank parked
    (firstSector_request .read)
  refine ⟨r, hr, hiff.mpr ⟨?_, nofun⟩⟩
  have hmoves : requestMoves (controller false) (firstSector .read) parked = (1, 0) := by
    decide +kernel
  rw [hmoves]
  exact .inr ⟨by decide, fun _ hu => by cases hu⟩

/-- Commands that fail end where they begin. -/
theorem Orderly.of_failed {last a b : Nat} {sent : List Sent} (h : Orderly write last a sent b)
    (hfailed : ∀ s ∈ sent, s.clean = false) : b = a := by
  induction h with
  | nil => rfl
  | @cons lba k fin s sent _ _ _ ih =>
    rw [hfailed s List.mem_cons_self] at ih
    exact ih fun s hs => hfailed s (List.mem_cons_of_mem _ hs)

/-- A write to a protected disk: no sector is written, and the transfer goes on by one. -/
theorem floppy_io_write_protected : ∃ r,
    floppyIo (controller true) 0xC2000000 (firstSector .write) blank parked = some r ∧
      r.error = erofs ∧ (∀ s ∈ r.sent, s.clean = false) ∧ r.io.lengthRemaining = 0 ∧
      ¬ Correct 0xC2000000 (firstSector .write) blank r := by
  have hrun : ∃ r,
      floppyIo (controller true) 0xC2000000 (firstSector .write) blank parked = some r ∧
      r.error = erofs ∧ r.sent.map Sent.clean = [false] ∧ r.io.lengthRemaining = 0 := by
    refine ⟨_, rfl, ?_, ?_, ?_⟩ <;> decide +kernel
  obtain ⟨r, hr, herror, hclean, hio⟩ := hrun
  have hfailed : ∀ s ∈ r.sent, s.clean = false := by
    intro s hs
    have := List.mem_map_of_mem (f := Sent.clean) hs
    rw [hclean] at this
    exact List.mem_singleton.mp this
  refine ⟨r, hr, herror, hfailed, hio, ?_⟩
  rintro ⟨done, horderly, -, htransfer, -⟩
  have hdone : done = 0 := by
    have := horderly.of_failed hfailed
    omega
  rw [hdone, advanced_zero] at htransfer
  rw [htransfer] at hio
  exact absurd hio (by decide)

end Nolrem.Dev.Floppy
