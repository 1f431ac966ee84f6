import Nolrem.Dev.Floppy

/-!
# The requests of the floppy driver

How far the transfer of a request is when `FloppyIo` returns, against how far the controller is. The
driver does not look at the result of `PerformTransfer`, and stages a run of a write before it knows
how the run ends.
-/

namespace Nolrem.Dev.Floppy

open Nolrem.Lib Nolrem.Vfs Nolrem.Vfs.Copy

variable {write : Bool} {lba count k n : Nat} {virt : UInt32} {w : World} {io : Vfs.Copy.Transfer}
  {drive : Drive} {hw : Nat → Answer}

/-! ## The caller's buffer -/

/-- `PerformTransfer` would copy the first `k` sectors. -/
def Accepts (io : Vfs.Copy.Transfer) (k : Nat) : Prop := k = 0 ∨ io.Allowed (k * sectorSize)

/-- The transfer after `a` sectors -/
def advanced (io : Vfs.Copy.Transfer) (a : Nat) : Vfs.Copy.Transfer :=
  io.moved (.ofNat (a * sectorSize))

/-- The buffer of `n` sectors is in memory. -/
structure Buffer (io : Vfs.Copy.Transfer) (n : Nat) : Prop where
  length : io.lengthRemaining.toNat = n * sectorSize
  memory : io.address.toNat + n * sectorSize ≤ 4294967296
  small : n ≤ 2880

variable {a : Nat}

theorem Accepts.mono {k' : Nat} (h : Accepts io k) (hk : k' ≤ k) : Accepts io k' := by
  rcases h with rfl | h
  · exact .inl (by omega)
  · by_cases h0 : k' = 0
    · exact .inl h0
    · refine .inr ⟨h.address, fun _ hu => ?_⟩
      have hne : k * sectorSize ≠ 0 := by
        unfold sectorSize
        omega
      obtain ⟨hbase, hlimit⟩ := h.user hne hu
      refine ⟨hbase, ?_⟩
      have := Nat.mul_le_mul_right sectorSize hk
      omega

theorem Buffer.address (h : Buffer io n) (ha : a < n) :
    (advanced io a).address.toNat = io.address.toNat + a * sectorSize := by
  have hm := h.memory
  have hs := h.small
  unfold sectorSize at hm
  unfold advanced Vfs.Copy.Transfer.moved sectorSize
  dsimp only
  rw [UInt32.toNat_add, UInt64.toNat_toUInt32, UInt64.toNat_ofNat']
  omega

theorem advanced_place (io : Vfs.Copy.Transfer) (a i : Nat) :
    place (advanced io a).address i = place io.address (a * sectorSize + i) := by
  rw [← place_add]
  congr 1
  unfold advanced Vfs.Copy.Transfer.moved
  dsimp only
  rw [UInt64.toUInt32_ofNat']

theorem Buffer.remaining (h : Buffer io n) (ha : a ≤ n) :
    (advanced io a).lengthRemaining.toNat = (n - a) * sectorSize := by
  have hl := h.length
  have hs := h.small
  unfold advanced Vfs.Copy.Transfer.moved sectorSize
  unfold sectorSize at hl
  dsimp only
  rw [UInt64.toNat_sub, UInt64.toNat_ofNat']
  have := io.lengthRemaining.toNat_lt
  omega

theorem advanced_advanced (a k : Nat) :
    (advanced io a).moved (.ofNat (k * sectorSize)) = advanced io (a + k) := by
  unfold advanced
  rw [Vfs.Copy.Transfer.moved_moved, ← UInt64.ofNat_add, Nat.add_mul]

theorem advanced_injective {b : Nat} (ha : a ≤ 2880) (hb : b ≤ 2880)
    (h : advanced io a = advanced io b) : a = b := by
  have hoffset := congrArg Vfs.Copy.Transfer.offset h
  unfold advanced Vfs.Copy.Transfer.moved at hoffset
  have heq := congrArg UInt64.toNat ((UInt64.add_right_inj io.offset).mp hoffset)
  rw [UInt64.toNat_ofNat', UInt64.toNat_ofNat'] at heq
  unfold sectorSize at heq
  omega

/-- From where the transfer is, `k` more sectors are accepted if all up to them are. -/
theorem Buffer.allowed_iff (h : Buffer io n) (ha : Accepts io a) (hk : 0 < k) (hn : a + k ≤ n) :
    (advanced io a).Allowed (k * sectorSize) ↔ Accepts io (a + k) := by
  have haddress := h.address (a := a) (by omega)
  have hm := h.memory
  have htype : (advanced io a).type = io.type := rfl
  have hzero : ∀ p : UInt32, p ≠ 0 ↔ p.toNat ≠ 0 := fun p =>
    not_congr ⟨fun hp => by rw [hp]; rfl, fun hp => UInt32.toNat_inj.mp hp⟩
  unfold sectorSize at haddress hm
  constructor
  · rintro ⟨h0, hu⟩
    right
    rw [hzero, haddress] at h0
    have hio : io.address ≠ 0 := by
      rcases ha with rfl | ha
      · rw [hzero]
        omega
      · exact ha.address
    refine ⟨hio, fun _ huser => ?_⟩
    obtain ⟨hbase, hlimit⟩ := hu (by unfold sectorSize; omega) huser
    rw [haddress] at hlimit
    unfold sectorSize at hlimit ⊢
    refine ⟨?_, by omega⟩
    rcases ha with rfl | ha
    · rw [UInt32.le_iff_toNat_le, haddress] at hbase
      rw [UInt32.le_iff_toNat_le]
      omega
    · by_cases ha0 : a = 0
      · subst ha0
        rw [UInt32.le_iff_toNat_le, haddress] at hbase
        rw [UInt32.le_iff_toNat_le]
        omega
      · exact (ha.user (by unfold sectorSize; omega) huser).1
  · rintro (h0 | hall)
    · omega
    · have hio := (hzero _).mp hall.address
      refine ⟨by rw [hzero, haddress]; omega, fun _ huser => ?_⟩
      obtain ⟨hbase, hlimit⟩ := hall.user (by unfold sectorSize; omega) huser
      rw [UInt32.le_iff_toNat_le] at hbase ⊢
      rw [haddress]
      unfold sectorSize at hlimit ⊢
      omega

theorem Buffer.transfer_count (h : Buffer io n) (hk : 0 < k) (hn : a + k ≤ n) :
    (advanced io a).count (.ofNat (k * sectorSize)) = k * sectorSize := by
  have hr := h.remaining (a := a) (by omega)
  have hs := h.small
  unfold Vfs.Copy.Transfer.count
  rw [hr, UInt64.toNat_ofNat']
  unfold sectorSize
  omega

/-- `PerformTransfer` of accepted sectors -/
theorem Buffer.transfer (h : Buffer io n) (ha : Accepts io a) (hk : 0 < k) (hn : a + k ≤ n)
    (haccepts : Accepts io (a + k)) :
    ∃ mem, transferSectors virt w (advanced io a) k = ({ w with mem }, advanced io (a + k)) ∧
      ((advanced io a).Copyable virt (k * sectorSize) →
        CopiedBytes ((advanced io a).destination virt) ((advanced io a).source virt)
          (k * sectorSize) w.mem mem) := by
  have hcount := h.transfer_count hk hn
  have hsmall := h.small
  have hallowed := (h.allowed_iff ha hk hn).mpr haccepts
  have hdone := @performTransfer_done (advanced io a) (.ofNat (k * sectorSize)) w.mem virt
    (by rw [hcount]; unfold sectorSize; omega) (by rw [hcount]; exact hallowed)
  rw [hcount] at hdone
  refine ⟨_, ?_, hdone.copied⟩
  unfold transferSectors
  dsimp only
  rw [hdone.moved, advanced_advanced]

/-- `PerformTransfer` of other sectors does nothing. -/
theorem Buffer.no_transfer (h : Buffer io n) (ha : Accepts io a) (hk : 0 < k) (hn : a + k ≤ n)
    (hrefuses : ¬ Accepts io (a + k)) :
    transferSectors virt w (advanced io a) k = (w, advanced io a) := by
  have hcount := h.transfer_count hk hn
  have hsmall := h.small
  have hnot : ¬ (advanced io a).Allowed (k * sectorSize) := by rwa [h.allowed_iff ha hk hn]
  obtain ⟨status, -, heq⟩ := @performTransfer_fails (advanced io a) (.ofNat (k * sectorSize)) w.mem
    virt (by rw [hcount]; unfold sectorSize; omega) (by rw [hcount]; exact hnot)
  unfold transferSectors
  rw [heq]

/-! ## The whole request -/

/-- How many sectors the controller completes, and how long the run is that it gives up on (0 if
there is none). The data plays no part in it. -/
def controllerMoves (hw : Nat → Answer) (write : Bool) : Nat → Nat → Nat → Drive → Nat × Nat
  | 0, _, _, _ => (0, 0)
  | fuel + 1, lba, remaining, drive =>
    if remaining = 0 then (0, 0)
    else
      let count := runLength lba remaining
      let (error, done, drive, _) := floppyTransferSectors hw drive write
        (cylinderOf lba) (headOf lba) (sectorOf lba) count
      if error ≠ 0 then (0, count)
      else
        let (completed, staged) := controllerMoves hw write fuel (lba + done) (remaining - done)
          drive
        (done + completed, staged)

/-- How far the transfer is, against how far the controller is: `a` and `c` sectors. Once
`PerformTransfer` has failed the transfer stays behind. -/
structure Behind (io : Vfs.Copy.Transfer) (a c : Nat) : Prop where
  le : a ≤ c
  accepts : Accepts io a
  level : Accepts io c → a = c

/-- `PerformTransfer` of the sectors that the controller completes -/
theorem Buffer.behind (h : Buffer io n) {c : Nat} (hb : Behind io a c) (hk : 0 < k)
    (hn : c + k ≤ n) (virt : UInt32) (w : World) :
    ∃ a' mem, transferSectors virt w (advanced io a) k = ({ w with mem }, advanced io a') ∧
      Behind io a' (c + k) ∧
      (a' = a ∧ ¬ Accepts io (a + k) ∨ a' = a + k ∧ Accepts io (a + k)) := by
  have hle := hb.le
  by_cases haccepts : Accepts io (a + k)
  · obtain ⟨mem, heq, -⟩ := @Buffer.transfer k n virt w io a h hb.accepts hk (by omega) haccepts
    refine ⟨a + k, mem, heq, ⟨by omega, haccepts, fun hall => ?_⟩, .inr ⟨rfl, haccepts⟩⟩
    rw [hb.level (hall.mono (by omega))]
  · refine ⟨a, w.mem, h.no_transfer hb.accepts hk (by omega) haccepts,
      ⟨by omega, hb.accepts, fun hall => ?_⟩, .inl ⟨rfl, haccepts⟩⟩
    exact absurd (hall.mono (by omega)) haccepts

/-- What the loop of `FloppyIo` returns, without the data -/
structure LoopEnds (write : Bool) (io : Vfs.Copy.Transfer) (lba remaining c : Nat)
    (moves : Nat × Nat) (r : Finish) : Prop where
  error : r.error = 0 ↔ moves.2 = 0
  completed : moves.2 = 0 → moves.1 = remaining
  fits : moves.1 + moves.2 ≤ remaining
  orderly : Orderly write (lba + remaining) lba r.sent (lba + moves.1)
  transfer : ∃ a, r.io = advanced io a ∧ a ≤ c + remaining ∧
    (a = c + moves.1 ↔ Accepts io (c + moves.1) ∧
      (write = true → moves.2 ≠ 0 → ¬ Accepts io (c + moves.1 + moves.2)))

theorem Tried.moved_all {error done : Nat} {sent : List Sent}
    (h : Tried write lba count (error, done, drive, sent)) (herror : error = 0) :
    0 < done ∧ done ≤ count ∧ (write = true → done = count) := by
  cases h with
  | gaveUp hne _ => exact absurd herror hne
  | moved _ _ hright hle hall => exact ⟨hright.pos, hle, hall⟩

/-- The loop ends at once. -/
theorem LoopEnds.nil {c : Nat} {w : World} (hb : Behind io a c) :
    LoopEnds write io lba 0 c (0, 0) ⟨0, advanced io a, w, drive, []⟩ where
  error := by simp
  completed := fun _ => rfl
  fits := Nat.le_refl _
  orderly := .nil _
  transfer := by
    refine ⟨a, rfl, hb.le, ?_⟩
    simp only [Nat.add_zero, ne_eq, not_true, false_implies, implies_true, and_true]
    exact ⟨fun heq => heq ▸ hb.accepts, hb.level⟩

/-- One turn of the loop that moves `done` sectors, before the others -/
theorem LoopEnds.cons {remaining c done : Nat} {moves : Nat × Nat} {r : Finish} {sent : List Sent}
    (hle : done ≤ remaining) (hsent : Orderly write (lba + remaining) lba sent (lba + done))
    (h : LoopEnds write io (lba + done) (remaining - done) (c + done) moves r) :
    LoopEnds write io lba remaining c (done + moves.1, moves.2)
      { r with sent := sent ++ r.sent } where
  error := h.error
  completed := fun h0 => by
    have := h.completed h0
    dsimp only
    omega
  fits := by
    have := h.fits
    dsimp only
    omega
  orderly := by
    have hrest := h.orderly
    rw [show lba + done + (remaining - done) = lba + remaining by omega, Nat.add_assoc] at hrest
    exact hsent.append hrest
  transfer := by
    obtain ⟨a, hio, ha, hiff⟩ := h.transfer
    refine ⟨a, hio, by omega, ?_⟩
    rw [Nat.add_assoc c done] at hiff
    exact hiff

/-- The controller gives up on a run. -/
theorem LoopEnds.gaveUp {remaining c error : Nat} {w : World} {sent : List Sent} {a' : Nat}
    (herror : error ≠ 0) (hpos : 0 < count) (hle : count ≤ remaining)
    (hsent : Orderly write (lba + remaining) lba sent lba) (ha : a' ≤ c + count)
    (hiff : a' = c ↔ Accepts io c ∧ (write = true → ¬ Accepts io (c + count))) :
    LoopEnds write io lba remaining c (0, count) ⟨error, advanced io a', w, drive, sent⟩ where
  error := iff_of_false herror (by dsimp only; omega)
  completed := fun h0 => by
    dsimp only at h0
    omega
  fits := by
    dsimp only
    omega
  orderly := hsent
  transfer := by
    refine ⟨a', rfl, by omega, ?_⟩
    simp only [Nat.add_zero]
    have hne : count ≠ 0 := by omega
    simp only [hne, ne_eq, not_false_eq_true, true_implies]
    exact hiff

/-- One turn of the loop, whatever the data is -/
theorem ioLoop_turn (hw : Nat → Answer) (virt : UInt32) (write : Bool) (fuel lba : Nat)
    {remaining : Nat} (drive : Drive) (h0 : remaining ≠ 0) :
    ∃ count error done drive₁ sent, 0 < count ∧ count ≤ remaining ∧ count ≤ floppyMaxRun ∧
      Tried write lba count (error, done, drive₁, sent) ∧
      (controllerMoves hw write (fuel + 1) lba remaining drive = if error ≠ 0 then (0, count) else
        (done + (controllerMoves hw write fuel (lba + done) (remaining - done) drive₁).1,
          (controllerMoves hw write fuel (lba + done) (remaining - done) drive₁).2)) ∧
      ∀ io w, ioLoop hw virt write (fuel + 1) lba remaining io w drive =
        let (w, io) := if write then transferSectors virt w io count else (w, io)
        let w := sent.foldl (Sent.perform virt) w
        if error ≠ 0 then some ⟨error, io, w, drive₁, sent⟩
        else
          let (w, io) := if !write then transferSectors virt w io done else (w, io)
          (ioLoop hw virt write fuel (lba + done) (remaining - done) io w drive₁).map fun r =>
            { r with sent := sent ++ r.sent } := by
  obtain ⟨hpos, hle, htrack, hbuffer⟩ := @runLength_spec lba remaining (by omega)
  have htried := @transferAttempts_tried write lba _ hw hpos htrack hbuffer maxAttempts drive
  generalize ht : transferAttempts hw write (cylinderOf lba) (headOf lba) (sectorOf lba)
    (runLength lba remaining) maxAttempts drive = t at htried
  obtain ⟨error, done, drive₁, sent⟩ := t
  refine ⟨_, error, done, drive₁, sent, hpos, hle, hbuffer, htried, ?_, fun io w => ?_⟩
  · rw [controllerMoves, if_neg h0]
    dsimp only
    rw [floppyTransferSectors, ht]
  · rw [ioLoop, if_neg h0]
    dsimp only
    rw [floppyTransferSectors, ht]

theorem controllerMoves_le (fuel lba remaining : Nat) (drive : Drive) :
    (controllerMoves hw write fuel lba remaining drive).1 ≤ remaining := by
  induction fuel generalizing lba remaining drive with
  | zero => exact Nat.zero_le _
  | succ fuel ih =>
    by_cases h0 : remaining = 0
    · rw [controllerMoves, if_pos h0]
      exact Nat.zero_le _
    · obtain ⟨count, error, done, drive₁, sent, hpos, hle, -, htried, hmoves, -⟩ :=
        ioLoop_turn hw 0 write fuel lba drive h0
      rw [hmoves]
      split
      · exact Nat.zero_le _
      · next herror =>
        have hdone := htried.moved_all (not_not.mp herror)
        have := ih (lba + done) (remaining - done) drive₁
        dsimp only
        omega

theorem ioLoop_ends (h : Buffer io n) (fuel lba remaining c a : Nat) (hb : Behind io a c)
    (hfuel : remaining ≤ fuel) (hn : c + remaining ≤ n) (w : World) (drive : Drive) :
    ∃ r, ioLoop hw virt write fuel lba remaining (advanced io a) w drive = some r ∧
      LoopEnds write io lba remaining c (controllerMoves hw write fuel lba remaining drive) r := by
  induction fuel generalizing lba remaining c a w drive with
  | zero =>
    obtain rfl : remaining = 0 := by omega
    exact ⟨_, rfl, .nil hb⟩
  | succ fuel ih =>
    by_cases h0 : remaining = 0
    · subst h0
      rw [ioLoop, controllerMoves, if_pos rfl, if_pos rfl]
      exact ⟨_, rfl, .nil hb⟩
    obtain ⟨count, error, done, drive₁, sent, hpos, hle, -, htried, hmoves, hloop⟩ :=
      ioLoop_turn hw virt write fuel lba drive h0
    rw [hmoves, hloop]
    have horderly := @Tried.orderly write lba count _ (lba + remaining) htried (by omega)
    have hle' := hb.le
    dsimp only at horderly ⊢
    cases write with
    | true =>
      -- the data of the run is staged first
      obtain ⟨a', mem, heq, hb', hor⟩ := h.behind hb hpos (by omega) virt w
      simp only [if_true, heq, Bool.not_true, Bool.false_eq_true, if_false]
      by_cases herror : error = 0
      · obtain ⟨-, -, hall⟩ := htried.moved_all herror
        obtain rfl := hall rfl
        rw [if_pos herror] at horderly
        rw [if_neg (not_not.mpr herror), if_neg (not_not.mpr herror)]
        obtain ⟨r, hr, hends⟩ := ih (lba + done) (remaining - done) (c + done) a' hb' (by omega)
          (by omega) _ drive₁
        rw [hr]
        exact ⟨_, rfl, .cons hle horderly hends⟩
      · rw [if_neg herror] at horderly
        rw [if_pos herror, if_pos herror]
        refine ⟨_, rfl, .gaveUp herror hpos hle horderly hb'.le ?_⟩
        rcases hor with ⟨rfl, hno⟩ | ⟨rfl, hyes⟩
        · constructor
          · rintro rfl
            exact ⟨hb.accepts, fun _ => hno⟩
          · exact fun hc => hb.level hc.1
        · constructor
          · rintro rfl
            have := hb.level hyes
            omega
          · intro hc
            rw [hb.level hc.1] at hyes
            exact absurd hyes (hc.2 rfl)
    | false =>
      simp only [Bool.false_eq_true, if_false, Bool.not_false, if_true]
      by_cases herror : error = 0
      · obtain ⟨hdone, hcount, -⟩ := htried.moved_all herror
        rw [if_pos herror] at horderly
        rw [if_neg (not_not.mpr herror), if_neg (not_not.mpr herror)]
        -- the data that was read is handed over
        obtain ⟨a', mem, heq, hb', -⟩ := h.behind hb hdone (by omega) virt
          (sent.foldl (Sent.perform virt) w)
        rw [heq]
        dsimp only
        obtain ⟨r, hr, hends⟩ := ih (lba + done) (remaining - done) (c + done) a' hb' (by omega)
          (by omega) _ drive₁
        rw [hr]
        exact ⟨_, rfl, .cons (by omega) horderly hends⟩
      · rw [if_neg herror] at horderly
        rw [if_pos herror, if_pos herror]
        refine ⟨_, rfl, .gaveUp herror hpos hle horderly
          (Nat.le_trans hle' (Nat.le_add_right _ _)) ?_⟩
        simp only [Bool.false_eq_true, false_implies, and_true]
        exact ⟨fun heq => heq ▸ hb.accepts, hb.level⟩

end Nolrem.Dev.Floppy
