import Nolrem.Vga.Rect

/-!
# Scrolling a rectangle

`VgaScrollRect` of `kernel/CLIPDRAW/driver/vga16/scroll.c`. The rectangle is inclusive.
-/

namespace Nolrem.Vga

open Nolrem.Lib

/-! ## The code -/

/-- `inb(VGA_GC_DATA)` -/
def Regs.inbGcData (r : Regs) : BitVec 8 :=
  if r.gcIndex = 0 then r.setReset
  else if r.gcIndex = 1 then r.enableSetReset
  else if r.gcIndex = 3 then r.dataRotate
  else if r.gcIndex = 5 then r.mode
  else if r.gcIndex = 8 then r.bitMask
  else 0

/--
`dummy = src_row[b]; dest_row[b] = dummy;` In write mode 1 it does not count which plane is read.
-/
def copyByte (dest src : Int) (s : Adapter) : Adapter :=
  (s.read src).write dest (s.vram src (Fin.last 3))

/-- The bytes at the ends of the rows, and their masks -/
structure Ends where
  startByte : Int
  endByte : Int
  startMask : BitVec 8
  endMask : BitVec 8

/-- The three loops of `CopyMaskedRow` and of `ClearMaskedRow`, which do `put` for each byte. -/
def maskedRow (e : Ends) (put : Int → Adapter → Adapter) (s : Adapter) : Adapter :=
  if e.startByte = e.endByte then put e.startByte (outGc 8 (e.startMask &&& e.endMask) s)
  else
    let s := put e.startByte (outGc 8 e.startMask s)
    let s :=
      if e.endByte - e.startByte > 1 then
        (rowsFrom (e.startByte + 1) e.endByte 1).foldl (fun s b => put b s) (outGc 8 0xFF s)
      else s
    put e.endByte (outGc 8 e.endMask s)

/-- `CopyMaskedRow` -/
def copyMaskedRow (destRow srcRow : Int) (e : Ends) (s : Adapter) : Adapter :=
  maskedRow e (fun b => copyByte (destRow + b) (srcRow + b)) s

/-- `ClearMaskedRow` -/
def clearMaskedRow (destRow : Int) (e : Ends) (s : Adapter) : Adapter :=
  maskedRow e (fun b s => s.write (destRow + b) 0) s

/-- The loop that copies `n` rows, `y` and those after it in the direction `dir`. -/
def copyRows (deltaY dir : Int) (e : Ends) : Nat → Int → Adapter → Adapter
  | 0, _, s => s
  | n + 1, y, s =>
    copyRows deltaY dir e n (y + dir) (copyMaskedRow (80 * y) (80 * (y + deltaY)) e s)

/-- The loop that clears the rows from `y1` to `y2`. -/
def clearRows (y1 y2 : Int) (e : Ends) (s : Adapter) : Adapter :=
  (rowsFrom y1 (y2 + 1) 1).foldl (fun s y => clearMaskedRow (80 * y) e s) s

/-- `outb(VGA_SEQ_INDEX, 2); outb(VGA_SEQ_DATA, 0x0F);` -/
def allPlanes (s : Adapter) : Adapter := (s.outb 0x3C4 2).outb 0x3C5 0x0F

/-- `VgaScrollRect` after the clipping -/
def scrollClipped (xStart yStart xEnd yEnd deltaY : Int) (s : Adapter) : Adapter :=
  let e : Ends :=
    ⟨xStart / 8, xEnd / 8, 0xFF#8 >>> (xStart % 8).toNat, 0xFF#8 <<< (7 - xEnd % 8).toNat⟩
  let windowHeight := yEnd - yStart + 1
  let s := s.outb 0x3CE 5
  let origMode := s.regs.inbGcData
  if deltaY ≥ windowHeight ∨ deltaY ≤ -windowHeight then
    outGc 8 0xFF (clearRows yStart yEnd e (outGc 5 (origMode &&& ~~~3) (allPlanes s)))
  else
    let s := outGc 5 (origMode &&& ~~~3 ||| 1) (allPlanes s)
    let s :=
      if deltaY > 0 then
        clearRows (yEnd - deltaY + 1) yEnd e (outGc 5 (origMode &&& ~~~3)
          (copyRows deltaY 1 e (yEnd - deltaY + 1 - yStart).toNat yStart s))
      else
        clearRows yStart (yStart - deltaY - 1) e (outGc 5 (origMode &&& ~~~3)
          (copyRows deltaY (-1) e (yEnd + 1 - (yStart - deltaY)).toNat yEnd s))
    outGc 5 origMode (outGc 8 0xFF s)

/-- `VgaScrollRect` -/
def vgaScrollRect (xStart yStart xEnd yEnd deltaY : Int) (s : Adapter) : Adapter :=
  if deltaY = 0 then s
  else
    let xStart := if xStart < 0 then 0 else xStart
    let xEnd := if xEnd > 639 then 639 else xEnd
    let yStart := if yStart < 0 then 0 else yStart
    let yEnd := if yEnd > 479 then 479 else yEnd
    if xStart > xEnd ∨ yStart > yEnd then s else scrollClipped xStart yStart xEnd yEnd deltaY s

/-! ## What scrolling is -/

/-- The point is in the clipped rectangle. -/
def InWindow (xStart yStart xEnd yEnd x y : Int) : Prop :=
  (max xStart 0 ≤ x ∧ x ≤ min xEnd 639) ∧ max yStart 0 ≤ y ∧ y ≤ min yEnd 479

instance (xStart yStart xEnd yEnd x y : Int) : Decidable (InWindow xStart yStart xEnd yEnd x y) :=
  inferInstanceAs (Decidable (_ ∧ _))

/-- The registers that scrolling relies on and does not set -/
structure Plain (r : Regs) : Prop where
  dataRotate : r.dataRotate = 0
  enableSetReset : r.enableSetReset = 0

/-- Scrolling moves what is in the window, and changes nothing else, the mode included. -/
def ScrollsExactly (xStart yStart xEnd yEnd deltaY : Int) (mode : BitVec 8) : Prop :=
  ∀ s : Adapter, Plain s.regs → s.regs.mode = mode →
    (vgaScrollRect xStart yStart xEnd yEnd deltaY s).regs.mode = mode ∧
    ∀ i : Int × Nat, i.2 < 8 →
      bits (vgaScrollRect xStart yStart xEnd yEnd deltaY s).vram i =
        if InWindow xStart yStart xEnd yEnd (pixelX i) (pixelY i) then
          if InWindow xStart yStart xEnd yEnd (pixelX i) (pixelY i + deltaY) then
            pixel s.vram (pixelX i) (pixelY i + deltaY)
          else fun _ => false
        else bits s.vram i

/-! ## Rows -/

section Rows

variable {s : Adapter} {e : Ends}

/-- The mask of a byte of the row -/
def Ends.maskAt (e : Ends) (b : Int) : BitVec 8 :=
  if e.startByte = e.endByte then e.startMask &&& e.endMask
  else if b = e.startByte then e.startMask
  else if b = e.endByte then e.endMask
  else 0xFF

/-- The bytes of row `y` -/
def OfRow (e : Ends) (y a : Int) : Prop := 80 * y + e.startByte ≤ a ∧ a ≤ 80 * y + e.endByte

/--
A row whose bytes are put one by one. `I` is kept by each of them and by the setting of the mask,
and `g` is what the bytes become.
-/
theorem maskedRow_affects {put : Int → Adapter → Adapter} {y : Int}
    {g : Int → Fin 4 → BitVec 8} (I : Adapter → Prop)
    (hmask : ∀ mask s, I s → I (outGc 8 mask s))
    (hput : ∀ b s, e.startByte ≤ b → b ≤ e.endByte → I s → s.regs.bitMask = e.maskAt b →
      I (put b s) ∧ (put b s).regs = s.regs ∧
        Affects (fun a _ => g a) (fun a => a = 80 * y + b) s.vram (put b s).vram)
    (hle : e.startByte ≤ e.endByte) (hs : I s) :
    I (maskedRow e put s) ∧
      Affects (fun a _ => g a) (OfRow e y) s.vram (maskedRow e put s).vram := by
  have hbit (mask : BitVec 8) (s : Adapter) : (outGc 8 mask s).regs.bitMask = mask := by
    rw [outGc_eight]
  unfold maskedRow
  dsimp only
  by_cases hone : e.startByte = e.endByte
  · rw [if_pos hone]
    obtain ⟨hI, -, haff⟩ := hput e.startByte _ (Int.le_refl _) hle
      (hmask (e.startMask &&& e.endMask) s hs) (by rw [hbit, Ends.maskAt, if_pos hone])
    exact ⟨hI, haff.congr fun a => by unfold OfRow; omega⟩
  · rw [if_neg hone]
    obtain ⟨hI, -, haff⟩ := hput e.startByte _ (Int.le_refl _) hle
      (hmask e.startMask s hs) (by rw [hbit, Ends.maskAt, if_neg hone, if_pos rfl])
    generalize put e.startByte (outGc 8 e.startMask s) = t at hI haff
    -- without bytes between the ends the loop does nothing
    obtain ⟨hI', haff'⟩ : I
        (if e.endByte - e.startByte > 1 then
          (rowsFrom (e.startByte + 1) e.endByte 1).foldl (fun s b => put b s) (outGc 8 0xFF t)
        else t) ∧
        Affects (fun a _ => g a)
          (fun a => ∃ b ∈ rowsFrom (e.startByte + 1) e.endByte 1, a = 80 * y + b) t.vram
          (if e.endByte - e.startByte > 1 then
            (rowsFrom (e.startByte + 1) e.endByte 1).foldl (fun s b => put b s) (outGc 8 0xFF t)
          else t).vram := by
      split_ifs with hmiddle
      · have hput' (t : Adapter) (b : Int) (hb : b ∈ rowsFrom (e.startByte + 1) e.endByte 1)
            (ht : I t ∧ t.regs.bitMask = 0xFF) :
            (I (put b t) ∧ (put b t).regs.bitMask = 0xFF) ∧
              Affects (fun a _ => g a) (fun a => a = 80 * y + b) t.vram (put b t).vram := by
          rw [mem_rowsFrom_one] at hb
          have hinner : e.maskAt b = 0xFF := by
            rw [Ends.maskAt, if_neg hone, if_neg (by omega), if_neg (by omega)]
          obtain ⟨hI, hregs, haff⟩ := hput b t (by omega) (by omega) ht.1 (ht.2.trans hinner.symm)
          exact ⟨⟨hI, hregs ▸ ht.2⟩, haff⟩
        obtain ⟨⟨hI', -⟩, haff'⟩ := Affects.foldl (fun t : Adapter => t.vram) _ _ hput'
          (List.pairwise_of_forall fun _ _ _ _ _ _ => rfl) ⟨hmask 0xFF t hI, hbit 0xFF t⟩
        exact ⟨hI', haff'⟩
      · refine ⟨hI, Affects.refl ?_⟩
        rintro a ⟨b, hb, -⟩
        rw [mem_rowsFrom_one] at hb
        omega
    obtain ⟨hI'', -, haff''⟩ := hput e.endByte _ hle (Int.le_refl _) (hmask e.endMask _ hI')
      (by rw [hbit, Ends.maskAt, if_neg hone, if_neg (Ne.symm hone), if_pos rfl])
    refine ⟨hI'', ((haff.comp haff' fun _ _ _ _ => rfl).comp haff'' fun _ _ _ _ => rfl).congr
      fun a => ?_⟩
    simp only [mem_rowsFrom_one]
    unfold OfRow
    constructor
    · rintro ((h | ⟨b, hb, h⟩) | h) <;> omega
    · intro h
      by_cases hfirst : a = 80 * y + e.startByte
      · exact Or.inl (Or.inl hfirst)
      · by_cases hlast : a = 80 * y + e.endByte
        · exact Or.inr hlast
        · exact Or.inl (Or.inr ⟨a - 80 * y, by omega, by omega⟩)

/-- A write that stores the latches, whatever the bit mask -/
theorem copyByte_affects (dest src : Int) (hmap : s.regs.mapMask = 0x0F)
    (hmode : s.regs.mode &&& 3 = 1) :
    (copyByte dest src s).regs = s.regs ∧
      Affects (fun _ _ => s.vram src) (fun a => a = dest) s.vram (copyByte dest src s).vram := by
  refine ⟨rfl, fun a => ⟨fun ha => ?_, fun ha => ?_⟩⟩ <;> funext p
  · show (if a = dest ∧ s.regs.mapMask.getLsbD p then _ else _) = _
    rw [if_pos ⟨ha, hmap ▸ getLsbD_planes p⟩]
    show Regs.written s.regs _ p (s.vram src p) = _
    unfold Regs.written
    rw [hmode]
    rfl
  · show (if a = dest ∧ s.regs.mapMask.getLsbD p then _ else _) = _
    rw [if_neg fun h => ha h.1]
    rfl

/-- A write of 0 in write mode 0 keeps what the latches have outside of the mask. -/
theorem clearByte_affects (dest : Int) (hmap : s.regs.mapMask = 0x0F)
    (hmode : s.regs.mode &&& 3 = 0) (hrotate : s.regs.dataRotate = 0)
    (henable : s.regs.enableSetReset = 0) :
    Affects (fun _ _ p => s.latch p &&& ~~~s.regs.bitMask) (fun a => a = dest) s.vram
      (s.write dest 0).vram := by
  refine fun a => ⟨fun ha => ?_, fun ha => ?_⟩ <;> funext p
  · show (if a = dest ∧ s.regs.mapMask.getLsbD p then _ else _) = _
    rw [if_pos ⟨ha, hmap ▸ getLsbD_planes p⟩]
    have hwritten : s.regs.written 0 p (s.latch p) = s.regs.masked 0 (s.latch p) := by
      unfold Regs.written Regs.rotated
      rw [hmode, henable, hrotate]
      show s.regs.masked (if (0 : BitVec 8).getLsbD p then _ else _) (s.latch p) = _
      rw [if_neg (by simp)]
      rfl
    rw [hwritten]
    refine BitVec.eq_of_getLsbD_eq fun k hk => ?_
    rw [getLsbD_masked hrotate hk, BitVec.getLsbD_and, BitVec.getLsbD_not, decide_eq_true hk]
    cases s.regs.bitMask.getLsbD k <;> simp
  · show (if a = dest ∧ s.regs.mapMask.getLsbD p then _ else _) = _
    rw [if_neg fun h => ha h.1]

/-- The registers that matter for a write, the bit mask aside -/
structure Writes (r : Regs) (mode : BitVec 8) : Prop where
  plain : Plain r
  mapMask : r.mapMask = 0x0F
  mode : r.mode = mode

theorem Writes.outGc_eight {mode : BitVec 8} (h : Writes s.regs mode) (mask : BitVec 8) :
    Writes (outGc 8 mask s).regs mode := by
  rw [Vga.outGc_eight]
  exact ⟨⟨h.plain.dataRotate, h.plain.enableSetReset⟩, h.mapMask, h.mode⟩

theorem Writes.outGc_five {mode : BitVec 8} (h : Writes s.regs mode) (mode' : BitVec 8) :
    Writes (outGc 5 mode' s).regs mode' := by
  rw [Vga.outGc_five]
  exact ⟨⟨h.plain.dataRotate, h.plain.enableSetReset⟩, h.mapMask, rfl⟩

/-- A row is copied, if the row it comes from is still as in `v`. -/
theorem copyMaskedRow_affects {mode : BitVec 8} (hmode : mode &&& 3 = 1) (y : Int) {deltaY : Int}
    (hdelta : deltaY ≠ 0) (he : 0 ≤ e.startByte ∧ e.startByte ≤ e.endByte ∧ e.endByte < 80)
    {v : Int → Fin 4 → BitVec 8} (hs : Writes s.regs mode)
    (hv : ∀ a, OfRow e (y + deltaY) a → s.vram a = v a) :
    Writes (copyMaskedRow (80 * y) (80 * (y + deltaY)) e s).regs mode ∧
      Affects (fun a _ => v (a + 80 * deltaY)) (OfRow e y) s.vram
        (copyMaskedRow (80 * y) (80 * (y + deltaY)) e s).vram := by
  have hput (b : Int) (t : Adapter) (hb1 : e.startByte ≤ b) (hb2 : b ≤ e.endByte)
      (ht : Writes t.regs mode ∧ ∀ a, OfRow e (y + deltaY) a → t.vram a = v a)
      (_ : t.regs.bitMask = e.maskAt b) :
      (Writes (copyByte (80 * y + b) (80 * (y + deltaY) + b) t).regs mode ∧
          ∀ a, OfRow e (y + deltaY) a →
            (copyByte (80 * y + b) (80 * (y + deltaY) + b) t).vram a = v a) ∧
        (copyByte (80 * y + b) (80 * (y + deltaY) + b) t).regs = t.regs ∧
          Affects (fun a _ => v (a + 80 * deltaY)) (fun a => a = 80 * y + b) t.vram
            (copyByte (80 * y + b) (80 * (y + deltaY) + b) t).vram := by
    obtain ⟨hregs, haff⟩ := copyByte_affects (80 * y + b) (80 * (y + deltaY) + b) ht.1.mapMask
      (ht.1.mode ▸ hmode)
    refine ⟨⟨hregs ▸ ht.1, fun a ha => ?_⟩, hregs, haff.congr_fun fun a ha w => ?_⟩
    · rw [(haff a).2 (by unfold OfRow at ha; omega), ht.2 a ha]
    · rw [ht.2 _ (by unfold OfRow; omega), ha]
      congr 1
      omega
  obtain ⟨⟨hwrites, -⟩, haff⟩ := maskedRow_affects _
    (fun mask t ht => ⟨ht.1.outGc_eight mask, ht.2⟩) hput he.2.1 ⟨hs, hv⟩
  exact ⟨hwrites, haff⟩

/-- A row is cleared, but for what is in the latches. -/
theorem clearMaskedRow_affects {mode : BitVec 8} (hmode : mode &&& 3 = 0) {y : Int}
    (he : 0 ≤ e.startByte ∧ e.startByte ≤ e.endByte ∧ e.endByte < 80)
    {latch : Fin 4 → BitVec 8} (hs : Writes s.regs mode ∧ s.latch = latch) :
    (Writes (clearMaskedRow (80 * y) e s).regs mode ∧
        (clearMaskedRow (80 * y) e s).latch = latch) ∧
      Affects (fun a _ p => latch p &&& ~~~e.maskAt (a % 80)) (OfRow e y) s.vram
        (clearMaskedRow (80 * y) e s).vram := by
  have hput (b : Int) (t : Adapter) (hb1 : e.startByte ≤ b) (hb2 : b ≤ e.endByte)
      (ht : Writes t.regs mode ∧ t.latch = latch) (hmask : t.regs.bitMask = e.maskAt b) :
      (Writes (t.write (80 * y + b) 0).regs mode ∧ (t.write (80 * y + b) 0).latch = latch) ∧
        (t.write (80 * y + b) 0).regs = t.regs ∧
          Affects (fun a _ p => latch p &&& ~~~e.maskAt (a % 80)) (fun a => a = 80 * y + b)
            t.vram (t.write (80 * y + b) 0).vram := by
    have haff := clearByte_affects (80 * y + b) ht.1.mapMask (ht.1.mode ▸ hmode)
      ht.1.plain.dataRotate ht.1.plain.enableSetReset
    refine ⟨ht, rfl, haff.congr_fun fun a ha w => ?_⟩
    rw [hmask, ht.2, show a % 80 = b by omega]
  exact maskedRow_affects _ (fun mask t ht => ⟨ht.1.outGc_eight mask, ht.2⟩) hput he.2.1 hs

/-- Rows are copied in the direction in which none is read that was written before. -/
theorem copyRows_affects {mode : BitVec 8} (hmode : mode &&& 3 = 1) {deltaY dir : Int}
    (hdir : dir = 1 ∧ 0 < deltaY ∨ dir = -1 ∧ deltaY < 0)
    (he : 0 ≤ e.startByte ∧ e.startByte ≤ e.endByte ∧ e.endByte < 80)
    {v : Int → Fin 4 → BitVec 8} {n : Nat} {y : Int} (hs : Writes s.regs mode)
    (hv : ∀ k : Nat, k < n → ∀ a, OfRow e (y + dir * k + deltaY) a → s.vram a = v a) :
    Writes (copyRows deltaY dir e n y s).regs mode ∧
      Affects (fun a _ => v (a + 80 * deltaY))
        (fun a => ∃ k : Nat, k < n ∧ OfRow e (y + dir * k) a) s.vram
        (copyRows deltaY dir e n y s).vram := by
  induction n generalizing s y with
  | zero => exact ⟨hs, Affects.refl fun a ⟨k, hk, _⟩ => absurd hk (Nat.not_lt_zero k)⟩
  | succ n ih =>
    have hdelta : deltaY ≠ 0 := by omega
    have hfirst (a : Int) (ha : OfRow e (y + deltaY) a) : s.vram a = v a :=
      hv 0 (Nat.succ_pos n) a (by rwa [Int.natCast_zero, Int.mul_zero, Int.add_zero])
    obtain ⟨hwrites, haff⟩ := copyMaskedRow_affects hmode y hdelta he hs hfirst
    have hshift (k : Nat) : y + dir + dir * (k : Int) = y + dir * ((k + 1 : Nat) : Int) := by
      rw [Int.natCast_succ, Int.mul_add]
      omega
    obtain ⟨hwrites', haff'⟩ := ih (y := y + dir) hwrites fun k hk a ha => by
      rw [(haff a).2, hv (k + 1) (Nat.succ_lt_succ hk) a (hshift k ▸ ha)]
      unfold OfRow at ha ⊢
      rcases hdir with ⟨rfl, hpos⟩ | ⟨rfl, hneg⟩ <;> omega
    refine ⟨hwrites', (haff.comp haff' fun _ _ _ _ => rfl).congr fun a => ?_⟩
    simp only [hshift]
    constructor
    · rintro (ha | ⟨k, hk, ha⟩)
      · exact ⟨0, Nat.succ_pos n, by rwa [Int.natCast_zero, Int.mul_zero, Int.add_zero]⟩
      · exact ⟨k + 1, Nat.succ_lt_succ hk, ha⟩
    · rintro ⟨k, hk, ha⟩
      cases k with
      | zero =>
        rw [Int.natCast_zero, Int.mul_zero, Int.add_zero] at ha
        exact Or.inl ha
      | succ k => exact Or.inr ⟨k, Nat.lt_of_succ_lt_succ hk, ha⟩

/-- The bytes of the rows from `y1` to `y2` -/
def InStrip (e : Ends) (y1 y2 a : Int) : Prop :=
  (y1 ≤ a / 80 ∧ a / 80 ≤ y2) ∧ e.startByte ≤ a % 80 ∧ a % 80 ≤ e.endByte

instance (e : Ends) (y1 y2 a : Int) : Decidable (InStrip e y1 y2 a) :=
  inferInstanceAs (Decidable (_ ∧ _))

theorem clearRows_affects {mode : BitVec 8} (hmode : mode &&& 3 = 0) (y1 y2 : Int)
    (he : 0 ≤ e.startByte ∧ e.startByte ≤ e.endByte ∧ e.endByte < 80)
    {latch : Fin 4 → BitVec 8} (hs : Writes s.regs mode ∧ s.latch = latch) :
    Writes (clearRows y1 y2 e s).regs mode ∧
      Affects (fun a _ p => latch p &&& ~~~e.maskAt (a % 80)) (InStrip e y1 y2) s.vram
        (clearRows y1 y2 e s).vram := by
  have hrow (t : Adapter) (y : Int) (_ : y ∈ rowsFrom y1 (y2 + 1) 1)
      (ht : Writes t.regs mode ∧ t.latch = latch) :=
    clearMaskedRow_affects hmode he (y := y) ht
  obtain ⟨⟨hwrites, -⟩, haff⟩ := Affects.foldl (fun t : Adapter => t.vram)
    (fun t => Writes t.regs mode ∧ t.latch = latch) (OfRow e) hrow
    (List.pairwise_of_forall fun _ _ _ _ _ _ => rfl) hs
  refine ⟨hwrites, haff.congr fun a => ?_⟩
  simp only [mem_rowsFrom_one]
  unfold OfRow InStrip
  constructor
  · rintro ⟨y, hy, ha⟩
    omega
  · intro h
    exact ⟨a / 80, by omega, by omega⟩

end Rows

/-! ## The rectangle -/

/-- What scrolling makes of the bytes of the rows, with the latches that clearing finds -/
def scrolled (e : Ends) (y1 y2 deltaY : Int) (latch : Fin 4 → BitVec 8)
    (v : Int → Fin 4 → BitVec 8) (a : Int) : Fin 4 → BitVec 8 :=
  if InStrip e y1 y2 (a + 80 * deltaY) then v (a + 80 * deltaY)
  else fun p => latch p &&& ~~~e.maskAt (a % 80)

section Clipped

variable {s : Adapter} {x1 y1 x2 y2 deltaY : Int}

/-- The rows that are copied and then those that are cleared are all the rows. -/
theorem copyRows_clearRows_affects {e : Ends} {mode mode' : BitVec 8} (hmode : mode &&& 3 = 1)
    (hmode' : mode' &&& 3 = 0) {dir : Int} (hdir : dir = 1 ∧ 0 < deltaY ∨ dir = -1 ∧ deltaY < 0)
    (he : 0 ≤ e.startByte ∧ e.startByte ≤ e.endByte ∧ e.endByte < 80)
    (y1 y2 : Int) (n : Nat) (y z1 z2 : Int)
    (hcopied : ∀ a, (∃ k : Nat, k < n ∧ OfRow e (y + dir * k) a) ↔
      InStrip e y1 y2 a ∧ InStrip e y1 y2 (a + 80 * deltaY))
    (hcleared : ∀ a, InStrip e z1 z2 a ↔ InStrip e y1 y2 a ∧ ¬ InStrip e y1 y2 (a + 80 * deltaY))
    (hs : Writes s.regs mode) :
    Writes (clearRows z1 z2 e (outGc 5 mode' (copyRows deltaY dir e n y s))).regs mode' ∧
      ∃ latch, Affects (fun a _ => scrolled e y1 y2 deltaY latch s.vram a) (InStrip e y1 y2) s.vram
        (clearRows z1 z2 e (outGc 5 mode' (copyRows deltaY dir e n y s))).vram := by
  obtain ⟨hwrites, hcopy⟩ := copyRows_affects hmode hdir he (n := n) (y := y) hs
    fun _ _ _ _ => rfl
  obtain ⟨hwrites', hclear⟩ := clearRows_affects hmode' z1 z2 he
    ⟨hwrites.outGc_five mode', rfl⟩
  have hcopy' := hcopy.congr_fun (g := fun a _ =>
      scrolled e y1 y2 deltaY (copyRows deltaY dir e n y s).latch s.vram a) fun a ha v => by
    unfold scrolled
    rw [if_pos ((hcopied a).mp ha).2]
  have hclear' := hclear.congr_fun (g := fun a _ =>
      scrolled e y1 y2 deltaY (copyRows deltaY dir e n y s).latch s.vram a) fun a ha v => by
    unfold scrolled
    rw [if_neg ((hcleared a).mp ha).2]
    rfl
  refine ⟨hwrites', _, (hcopy'.comp hclear' fun _ _ _ _ => rfl).congr fun a => ?_⟩
  rw [hcopied, hcleared, ← and_or_left]
  exact and_iff_left (Decidable.em _)

/-- The bytes at the ends, with their masks -/
def ends (x1 x2 : Int) : Ends :=
  ⟨x1 / 8, x2 / 8, 0xFF#8 >>> (x1 % 8).toNat, 0xFF#8 <<< (7 - x2 % 8).toNat⟩

theorem allPlanes_writes (h : Plain s.regs) (mode : BitVec 8) :
    Writes (outGc 5 mode (allPlanes (s.outb 0x3CE 5))).regs mode := by
  have hplain : (allPlanes (s.outb 0x3CE 5)).regs =
      { s.regs with seqIndex := 2, gcIndex := 5, mapMask := 0x0F } := by
    simp [allPlanes, Adapter.outb, Regs.outb]
  rw [outGc_five, hplain]
  exact ⟨⟨h.dataRotate, h.enableSetReset⟩, rfl, rfl⟩

theorem and_three_clear (mode : BitVec 8) : (mode &&& ~~~3) &&& 3 = 0 := by
  decide +revert +kernel

theorem and_three_one (mode : BitVec 8) : (mode &&& ~~~3 ||| 1) &&& 3 = 1 := by
  decide +revert +kernel

/-- Some of the rows stay in the rectangle. -/
def Overlaps (y1 y2 deltaY : Int) : Prop := deltaY < y2 - y1 + 1 ∧ -(y2 - y1 + 1) < deltaY

instance (y1 y2 deltaY : Int) : Decidable (Overlaps y1 y2 deltaY) :=
  inferInstanceAs (Decidable (_ ∧ _))

theorem inStrip_add_iff {e : Ends} {a : Int} : InStrip e y1 y2 (a + 80 * deltaY) ↔
    (y1 ≤ a / 80 + deltaY ∧ a / 80 + deltaY ≤ y2) ∧ e.startByte ≤ a % 80 ∧ a % 80 ≤ e.endByte := by
  unfold InStrip
  rw [Int.add_mul_ediv_left a deltaY (by decide), Int.add_mul_emod_self_left]

theorem scrollClipped_affects (y1 y2 : Int) (hs : Plain s.regs) (hdelta : deltaY ≠ 0) (h1 : 0 ≤ x1)
    (h12 : x1 ≤ x2) (h2 : x2 < 640) :
    (scrollClipped x1 y1 x2 y2 deltaY s).regs.mode =
        (if Overlaps y1 y2 deltaY then s.regs.mode else s.regs.mode &&& ~~~3) ∧
      ∃ latch, (¬ Overlaps y1 y2 deltaY → latch = s.latch) ∧
        Affects (fun a _ => scrolled (ends x1 x2) y1 y2 deltaY latch s.vram a)
          (InStrip (ends x1 x2) y1 y2) s.vram (scrollClipped x1 y1 x2 y2 deltaY s).vram := by
  have he : 0 ≤ (ends x1 x2).startByte ∧ (ends x1 x2).startByte ≤ (ends x1 x2).endByte ∧
      (ends x1 x2).endByte < 80 := by
    unfold ends
    dsimp only
    omega
  have horig : (s.outb 0x3CE 5).regs.inbGcData = s.regs.mode := rfl
  have hends : (⟨x1 / 8, x2 / 8, 0xFF#8 >>> (x1 % 8).toNat, 0xFF#8 <<< (7 - x2 % 8).toNat⟩ : Ends) =
      ends x1 x2 := rfl
  unfold scrollClipped
  dsimp only
  rw [horig, hends]
  by_cases hover : Overlaps y1 y2 deltaY
  · have hrows : deltaY ≤ y2 - y1 ∧ y1 - y2 ≤ deltaY := by
      unfold Overlaps at hover
      omega
    rw [if_neg (by omega), if_pos hover, outGc_five, outGc_vram, outGc_vram]
    refine ⟨rfl, ?_⟩
    have hone := and_three_one s.regs.mode
    have hzero := and_three_clear s.regs.mode
    have hstart := allPlanes_writes hs (s.regs.mode &&& ~~~3 ||| 1)
    split_ifs with hpos
    · have hdir : (1 : Int) = 1 ∧ 0 < deltaY ∨ (1 : Int) = -1 ∧ deltaY < 0 := Or.inl ⟨rfl, hpos⟩
      obtain ⟨-, latch, haff⟩ := copyRows_clearRows_affects hone hzero hdir he y1 y2
        (y2 - deltaY + 1 - y1).toNat y1 (y2 - deltaY + 1) y2
        (fun a => by
          rw [inStrip_add_iff]
          unfold OfRow InStrip
          constructor
          · rintro ⟨k, hk, ha⟩
            omega
          · intro ha
            exact ⟨(a / 80 - y1).toNat, by omega, by omega⟩)
        (fun a => by rw [inStrip_add_iff]; unfold InStrip; omega) hstart
      exact ⟨latch, fun h => absurd hover h, haff⟩
    · have hdir : (-1 : Int) = 1 ∧ 0 < deltaY ∨ (-1 : Int) = -1 ∧ deltaY < 0 :=
        Or.inr ⟨rfl, by omega⟩
      obtain ⟨-, latch, haff⟩ := copyRows_clearRows_affects hone hzero hdir he y1 y2
        (y2 + 1 - (y1 - deltaY)).toNat y2 y1 (y1 - deltaY - 1)
        (fun a => by
          rw [inStrip_add_iff]
          unfold OfRow InStrip
          constructor
          · rintro ⟨k, hk, ha⟩
            omega
          · intro ha
            exact ⟨(y2 - a / 80).toNat, by omega, by omega⟩)
        (fun a => by rw [inStrip_add_iff]; unfold InStrip; omega) hstart
      exact ⟨latch, fun h => absurd hover h, haff⟩
  · have hfull : deltaY ≥ y2 - y1 + 1 ∨ deltaY ≤ -(y2 - y1 + 1) := by
      unfold Overlaps at hover
      omega
    rw [if_pos hfull, if_neg hover, outGc_vram]
    obtain ⟨hwrites, haff⟩ := clearRows_affects (and_three_clear s.regs.mode) y1 y2 he
      ⟨allPlanes_writes hs (s.regs.mode &&& ~~~3), rfl⟩
    have hgone (a : Int) (ha : InStrip (ends x1 x2) y1 y2 a) :
        ¬ InStrip (ends x1 x2) y1 y2 (a + 80 * deltaY) := by
      rw [inStrip_add_iff]
      unfold InStrip at ha
      omega
    have hmode := (hwrites.outGc_eight 0xFF).mode
    have haff' := haff.congr_fun (g := fun a _ =>
        scrolled (ends x1 x2) y1 y2 deltaY s.latch s.vram a) fun a ha v => by
      unfold scrolled
      rw [if_neg (hgone a ha)]
      rfl
    exact ⟨hmode, s.latch, fun _ => rfl, haff'⟩

/-- The mask of a byte has its pixels that are between `x1` and `x2`. -/
theorem getLsbD_maskAt {b : Int} {k : Nat} (hb : x1 / 8 ≤ b ∧ b ≤ x2 / 8) (hk : k < 8) :
    ((ends x1 x2).maskAt b).getLsbD k = true ↔ x1 ≤ 8 * b + (7 - k) ∧ 8 * b + (7 - k) ≤ x2 := by
  unfold Ends.maskAt ends
  dsimp only
  split_ifs with hone hfirst hlast
  · rw [BitVec.getLsbD_and, Bool.and_eq_true, getLsbD_left, getLsbD_right]
    omega
  · rw [getLsbD_left]
    omega
  · rw [getLsbD_right]
    omega
  · rw [getLsbD_byte]
    omega

end Clipped

/-! ## When scrolling is exact -/

section Exact

variable {xStart yStart xEnd yEnd deltaY : Int} {mode : BitVec 8} {s : Adapter}

theorem vgaScrollRect_eq (hdelta : deltaY ≠ 0) (hx : max xStart 0 ≤ min xEnd 639)
    (hy : max yStart 0 ≤ min yEnd 479) (s : Adapter) :
    vgaScrollRect xStart yStart xEnd yEnd deltaY s =
      scrollClipped (max xStart 0) (max yStart 0) (min xEnd 639) (min yEnd 479) deltaY s := by
  have hstart (x : Int) : (if x < 0 then 0 else x) = max x 0 := by
    split_ifs <;> omega
  have hend (x m : Int) : (if x > m then m else x) = min x m := by
    split_ifs <;> omega
  unfold vgaScrollRect
  rw [if_neg hdelta, hstart, hstart, hend, hend, if_neg (by omega)]

/-- What scrolling makes of a pixel, whatever the edges of the rectangle are. -/
theorem bits_vgaScrollRect (hs : Plain s.regs) (hdelta : deltaY ≠ 0)
    (hx : max xStart 0 ≤ min xEnd 639) (hy : max yStart 0 ≤ min yEnd 479) :
    ∃ latch : Fin 4 → BitVec 8,
      (¬ Overlaps (max yStart 0) (min yEnd 479) deltaY → latch = s.latch) ∧
        ∀ i : Int × Nat, i.2 < 8 →
          bits (vgaScrollRect xStart yStart xEnd yEnd deltaY s).vram i =
            if InStrip (ends (max xStart 0) (min xEnd 639)) (max yStart 0) (min yEnd 479) i.1 then
              if InStrip (ends (max xStart 0) (min xEnd 639)) (max yStart 0) (min yEnd 479)
                  (i.1 + 80 * deltaY) then
                bits s.vram (i.1 + 80 * deltaY, i.2)
              else fun p => (latch p).getLsbD i.2 &&
                !((ends (max xStart 0) (min xEnd 639)).maskAt (i.1 % 80)).getLsbD i.2
            else bits s.vram i := by
  obtain ⟨-, latch, hlatch, haff⟩ := scrollClipped_affects (max yStart 0)
    (min yEnd 479) hs hdelta (Int.le_max_right xStart 0) hx
    (Int.lt_of_le_of_lt (Int.min_le_right xEnd 639) (by decide))
  refine ⟨latch, hlatch, fun i hk => ?_⟩
  rw [vgaScrollRect_eq hdelta hx hy]
  unfold bits
  funext p
  split_ifs with hin hfrom
  · rw [(haff i.1).1 hin]
    show (scrolled _ _ _ _ latch s.vram i.1 p).getLsbD i.2 = _
    rw [scrolled, if_pos hfrom]
  · rw [(haff i.1).1 hin]
    show (scrolled _ _ _ _ latch s.vram i.1 p).getLsbD i.2 = _
    rw [scrolled, if_neg hfrom, BitVec.getLsbD_and, BitVec.getLsbD_not, decide_eq_true hk,
      Bool.true_and]
  · rw [(haff i.1).2 hin]

theorem mode_vgaScrollRect (hs : Plain s.regs) (hdelta : deltaY ≠ 0)
    (hx : max xStart 0 ≤ min xEnd 639) (hy : max yStart 0 ≤ min yEnd 479) :
    (vgaScrollRect xStart yStart xEnd yEnd deltaY s).regs.mode =
      if Overlaps (max yStart 0) (min yEnd 479) deltaY then s.regs.mode
      else s.regs.mode &&& ~~~3 := by
  rw [vgaScrollRect_eq hdelta hx hy]
  exact (scrollClipped_affects _ _ hs hdelta (Int.le_max_right xStart 0) hx
    (Int.lt_of_le_of_lt (Int.min_le_right xEnd 639) (by decide))).1

/-- Write mode 0 -/
theorem and_three_eq_zero_iff (mode : BitVec 8) : mode &&& ~~~3 = mode ↔ mode &&& 3 = 0 := by
  decide +revert +kernel

/-- An adapter with one byte that is all ones -/
def marked (a : Int) (mode : BitVec 8) : Adapter where
  vram b _ := if b = a then 0xFF else 0
  latch _ := 0
  regs := ⟨0, 0, 0x0F, 0, 0, 0, mode, 0xFF⟩

theorem plain_marked (a : Int) (mode : BitVec 8) : Plain (marked a mode).regs := ⟨rfl, rfl⟩

theorem bits_marked {a : Int} {i : Int × Nat} (hk : i.2 < 8) (p : Fin 4) :
    bits (marked a mode).vram i p = decide (i.1 = a) := by
  unfold bits marked
  dsimp only
  split_ifs with ha
  · rw [getLsbD_byte.mpr hk, decide_eq_true ha]
  · rw [decide_eq_false ha]
    exact BitVec.getLsbD_zero

/-- A pixel beside the rectangle that shares a byte with it is lost. -/
theorem not_scrollsExactly (hdelta : deltaY ≠ 0) (hx : max xStart 0 ≤ min xEnd 639)
    (hy : max yStart 0 ≤ min yEnd 479)
    (hedge : ¬ (max xStart 0 % 8 = 0 ∧ min xEnd 639 % 8 = 7)) :
    ¬ ScrollsExactly xStart yStart xEnd yEnd deltaY mode := by
  intro h
  -- the byte at one of the ends, the pixel there and a row that is written with what is elsewhere
  obtain ⟨b, k, hb, hk, hout⟩ : ∃ (b : Int) (k : Nat),
      (max xStart 0 / 8 ≤ b ∧ b ≤ min xEnd 639 / 8) ∧ k < 8 ∧
        ¬ (max xStart 0 ≤ 8 * b + (7 - k) ∧ 8 * b + (7 - k) ≤ min xEnd 639) := by
    by_cases hleft : max xStart 0 % 8 = 0
    · exact ⟨min xEnd 639 / 8, 0, by omega, by omega, by omega⟩
    · exact ⟨max xStart 0 / 8, 7, by omega, by omega, by omega⟩
  obtain ⟨y, hrow, hfrom⟩ : ∃ y, (max yStart 0 ≤ y ∧ y ≤ min yEnd 479) ∧
      (Overlaps (max yStart 0) (min yEnd 479) deltaY →
        max yStart 0 ≤ y + deltaY ∧ y + deltaY ≤ min yEnd 479) := by
    unfold Overlaps
    by_cases hpos : deltaY > 0
    · exact ⟨max yStart 0, by omega, by omega⟩
    · exact ⟨min yEnd 479, by omega, by omega⟩
  have hbyte : (80 * y + b) % 80 = b ∧ (80 * y + b) / 80 = y := by omega
  have hin : InStrip (ends (max xStart 0) (min xEnd 639)) (max yStart 0) (min yEnd 479)
      (80 * y + b) := by
    unfold InStrip ends
    dsimp only
    omega
  have hwindow : ¬ InWindow xStart yStart xEnd yEnd (pixelX (80 * y + b, k))
      (pixelY (80 * y + b, k)) := by
    unfold InWindow pixelX
    dsimp only
    omega
  have hkept := (h _ (plain_marked (80 * y + b) mode) rfl).2 (80 * y + b, k) hk
  obtain ⟨latch, hlatch, hbits⟩ := bits_vgaScrollRect (plain_marked (80 * y + b) mode) hdelta hx hy
  rw [if_neg hwindow, hbits _ hk, if_pos hin] at hkept
  have hone := congrFun hkept 0
  rw [bits_marked hk, decide_eq_true rfl] at hone
  split_ifs at hone with hstay
  · rw [bits_marked (i := (80 * y + b + 80 * deltaY, k)) hk] at hone
    have := of_decide_eq_true hone
    omega
  · have hgone : ¬ Overlaps (max yStart 0) (min yEnd 479) deltaY := by
      intro hover
      have := hfrom hover
      rw [inStrip_add_iff] at hstay
      unfold InStrip at hin
      omega
    rw [hlatch hgone] at hone
    simp [marked] at hone

/-- `x` from 4 to 15: the pixels to the left of it in the first row become those below. -/
theorem not_scrollsExactly_edge : ¬ ScrollsExactly 4 0 15 1 1 0 :=
  not_scrollsExactly (by decide) (by decide) (by decide) (by decide)

theorem scrollsExactly_of_aligned (hdelta : deltaY ≠ 0) (hx : max xStart 0 ≤ min xEnd 639)
    (hy : max yStart 0 ≤ min yEnd 479) (hedge : max xStart 0 % 8 = 0 ∧ min xEnd 639 % 8 = 7)
    (hmode : Overlaps (max yStart 0) (min yEnd 479) deltaY ∨ mode &&& 3 = 0) :
    ScrollsExactly xStart yStart xEnd yEnd deltaY mode := by
  intro s hplain hs
  constructor
  · rw [mode_vgaScrollRect hplain hdelta hx hy, hs]
    split_ifs with hover
    · rfl
    · exact (and_three_eq_zero_iff mode).mpr (hmode.resolve_left hover)
  · intro i hk
    obtain ⟨latch, -, hbits⟩ := bits_vgaScrollRect hplain hdelta hx hy
    rw [hbits i hk]
    have hin : InStrip (ends (max xStart 0) (min xEnd 639)) (max yStart 0) (min yEnd 479) i.1 ↔
        InWindow xStart yStart xEnd yEnd (pixelX i) (pixelY i) := by
      unfold InStrip InWindow ends pixelX pixelY
      dsimp only
      omega
    have hfrom : InStrip (ends (max xStart 0) (min xEnd 639)) (max yStart 0) (min yEnd 479)
          (i.1 + 80 * deltaY) ↔
        InWindow xStart yStart xEnd yEnd (pixelX i) (pixelY i + deltaY) := by
      rw [inStrip_add_iff]
      unfold InWindow ends pixelX pixelY
      dsimp only
      omega
    simp only [hin, hfrom]
    split_ifs with hwindow hstay
    · have hplace : place (pixelX i) (pixelY i + deltaY) = (i.1 + 80 * deltaY, i.2) := by
        unfold place pixelX pixelY
        rw [Prod.mk.injEq]
        omega
      rw [pixel, hplace]
    · funext p
      have hbyte := hin.mpr hwindow
      unfold InStrip at hbyte
      have hmask : ((ends (max xStart 0) (min xEnd 639)).maskAt (i.1 % 80)).getLsbD i.2 =
          true := by
        refine (getLsbD_maskAt hbyte.2 hk).mpr ?_
        unfold InWindow pixelX at hwindow
        omega
      rw [hmask, Bool.not_true, Bool.and_false]
    · rfl

/--
Scrolling is exact only for whole bytes, and a window that is cleared as a whole keeps the mode only
if it is write mode 0.
-/
theorem scrollsExactly_iff (xStart yStart xEnd yEnd deltaY : Int) (mode : BitVec 8) :
    ScrollsExactly xStart yStart xEnd yEnd deltaY mode ↔
      deltaY = 0 ∨ (min xEnd 639 < max xStart 0 ∨ min yEnd 479 < max yStart 0) ∨
        (max xStart 0 % 8 = 0 ∧ min xEnd 639 % 8 = 7) ∧
          (Overlaps (max yStart 0) (min yEnd 479) deltaY ∨ mode &&& 3 = 0) := by
  by_cases hdelta : deltaY = 0
  · refine iff_of_true (fun s _ hs => ?_) (Or.inl hdelta)
    have hsame : vgaScrollRect xStart yStart xEnd yEnd deltaY s = s := if_pos hdelta
    rw [hsame]
    refine ⟨hs, fun i hk => ?_⟩
    split_ifs with hwindow hstay
    · rw [hdelta, Int.add_zero, pixel, place_pixel hk]
    · rw [hdelta, Int.add_zero] at hstay
      exact absurd hwindow hstay
    · rfl
  by_cases hempty : min xEnd 639 < max xStart 0 ∨ min yEnd 479 < max yStart 0
  · refine iff_of_true (fun s _ hs => ?_) (Or.inr (Or.inl hempty))
    have hsame : vgaScrollRect xStart yStart xEnd yEnd deltaY s = s := by
      unfold vgaScrollRect
      rw [if_neg hdelta]
      dsimp only
      rw [if_pos (by split_ifs <;> omega)]
    rw [hsame]
    refine ⟨hs, fun i hk => ?_⟩
    rw [if_neg (by unfold InWindow; omega)]
  · obtain ⟨hx, hy⟩ : max xStart 0 ≤ min xEnd 639 ∧ max yStart 0 ≤ min yEnd 479 := by omega
    constructor
    · intro h
      refine Or.inr (Or.inr ⟨by_contra fun hedge => not_scrollsExactly hdelta hx hy hedge h,
        or_iff_not_imp_left.mpr fun hover => ?_⟩)
      have hmode := (h _ (plain_marked 0 mode) rfl).1
      rw [mode_vgaScrollRect (plain_marked 0 mode) hdelta hx hy, if_neg hover] at hmode
      exact (and_three_eq_zero_iff mode).mp hmode
    · rintro (h | h | ⟨hedge, hmode⟩)
      · exact absurd h hdelta
      · exact absurd h hempty
      · exact scrollsExactly_of_aligned hdelta hx hy hedge hmode

end Exact

end Nolrem.Vga
