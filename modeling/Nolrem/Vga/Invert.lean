import Nolrem.Vga.Planes

/-!
# Inverting a rectangle

`kernel/CLIPDRAW/driver/vga16/invert.c`: `VgaInvertRect` and the loops under it.
-/

namespace Nolrem.Vga

open Nolrem.Lib

/-! ## The code -/

/-- `XorMasked` -/
def xorMasked (s : Adapter) (p : Int) : Adapter := s.touch p 0xFF

/-- The first row of a phase. -/
def phaseStart (y1 : Int) (half : Bool) (phase : Nat) : Int :=
  if half then y1 + (if y1 % 2 = phase then 0 else 1) else y1

def phaseStep (half : Bool) : Nat := if half then 2 else 1

def phases (half : Bool) : List Nat := List.range (if half then 2 else 1)

def columnMask (geom : BitVec 8) (half : Bool) (phase : Nat) : BitVec 8 :=
  if half then geom &&& (if phase ≠ 0 then 0x55 else 0xAA) else geom

def middleMask (half : Bool) (phase : Nat) : BitVec 8 :=
  if half then (if phase ≠ 0 then 0x55 else 0xAA) else 0xFF

/-- A round of the loop of `XorColumn`. -/
def xorColumnPhase (byteX y1 y2 : Int) (geom : BitVec 8) (half : Bool) (s : Adapter)
    (phase : Nat) : Adapter :=
  let mask := columnMask geom half phase
  if mask = 0 then s
  else
    (rowsFrom (phaseStart y1 half phase) y2 (phaseStep half)).foldl
      (fun s y => xorMasked s (80 * y + byteX)) (s.outb 0x3CF mask)

/-- `XorColumn` -/
def xorColumn (byteX y1 y2 : Int) (geom : BitVec 8) (half : Bool) (s : Adapter) : Adapter :=
  (phases half).foldl (xorColumnPhase byteX y1 y2 geom half) s

/-- `while (m--) XorMasked(q++)` -/
def xorRest : Nat → Int → Adapter → Adapter
  | 0, _, s => s
  | m + 1, q, s => xorRest m (q + 1) (xorMasked s q)

/-- The two loops of a row of `XorMiddle`. -/
def xorRun : Nat → Int → Adapter → Adapter
  | m + 4, q, s =>
    xorRun m (q + 4)
      (xorMasked (xorMasked (xorMasked (xorMasked s (q + 0)) (q + 1)) (q + 2)) (q + 3))
  | m, q, s => xorRest m q s

/-- A round of the loop of `XorMiddle`. -/
def xorMiddlePhase (byteA y1 y2 : Int) (n : Nat) (half : Bool) (s : Adapter) (phase : Nat) :
    Adapter :=
  (rowsFrom (phaseStart y1 half phase) y2 (phaseStep half)).foldl
    (fun s y => xorRun n (80 * y + byteA) s) (s.outb 0x3CF (middleMask half phase))

/-- `XorMiddle` -/
def xorMiddle (byteA byteB y1 y2 : Int) (half : Bool) (s : Adapter) : Adapter :=
  let n := byteB - byteA + 1
  if n ≤ 0 then s else (phases half).foldl (xorMiddlePhase byteA y1 y2 n.toNat half) s

/-- `VgaInvertRectFast`, once the rectangle is clipped. -/
def invertClipped (x1 y1 x2 y2 : Int) (half : Bool) (s : Adapter) : Adapter :=
  let byteX1 := x1 / 8
  let byteX2 := (x2 - 1) / 8
  let maskStart := 0xFF#8 >>> (x1 % 8).toNat
  let maskEnd := 0xFF#8 <<< (7 - (x2 - 1) % 8).toNat
  if byteX1 = byteX2 then xorColumn byteX1 y1 y2 (maskStart &&& maskEnd) half s
  else
    xorColumn byteX2 y1 y2 maskEnd half
      (xorMiddle (byteX1 + 1) (byteX2 - 1) y1 y2 half
        (xorColumn byteX1 y1 y2 maskStart half s))

/-- `VgaInvertRectFast` -/
def vgaInvertRectFast (x1 y1 x2 y2 : Int) (half : Bool) (s : Adapter) : Adapter :=
  let x1 := if x1 < 0 then 0 else x1
  let y1 := if y1 < 0 then 0 else y1
  let x2 := if x2 > 640 then 640 else x2
  let y2 := if y2 > 480 then 480 else y2
  if x1 ≥ x2 ∨ y1 ≥ y2 then s else invertClipped x1 y1 x2 y2 half s

/-- `VgaBeginXor` -/
def vgaBeginXor (s : Adapter) : Adapter :=
  ((((((s.outb 0x3C4 0x02).outb 0x3C5 0x0F).outb 0x3CE 0x01).outb 0x3CF 0x00).outb 0x3CE 0x03).outb
    0x3CF 0x18).outb 0x3CE 0x08

/-- `VgaEndXor` -/
def vgaEndXor (s : Adapter) : Adapter :=
  ((s.outb 0x3CF 0xFF).outb 0x3CE 0x03).outb 0x3CF 0x00

/-- `VgaInvertRect` -/
def vgaInvertRect (x1 y1 x2 y2 : Int) (half : Bool) (s : Adapter) : Adapter :=
  vgaEndXor (vgaInvertRectFast x1 y1 x2 y2 half (vgaBeginXor s))

/-! ## The registers -/

/-- The registers between `VgaBeginXor` and `VgaEndXor`. -/
structure Xoring (r : Regs) : Prop where
  mapMask : r.mapMask = 0x0F
  enableSetReset : r.enableSetReset = 0
  dataRotate : r.dataRotate = 0x18
  gcIndex : r.gcIndex = 8
  mode : r.mode = 0 ∨ r.mode = 2

/-- All bits of the pixel are inverted. -/
def flip (_ : Int × Nat) (b : Fin 4 → Bool) : Fin 4 → Bool := fun p => !b p

theorem Xoring.draws {r : Regs} (h : Xoring r) : r.Draws 0xFF fun _ b => !b := by
  refine ⟨h.mapMask, fun p latch k hk => ?_⟩
  have hwritten : r.written 0xFF p latch =
      ((0xFF ^^^ latch) &&& r.bitMask) ||| (latch &&& ~~~r.bitMask) := by
    have hmasked (l : BitVec 8) : r.masked 0xFF l =
        ((0xFF ^^^ l) &&& r.bitMask) ||| (l &&& ~~~r.bitMask) := by
      unfold Regs.masked Regs.alu
      rw [h.dataRotate]
      rfl
    rcases h.mode with hmode | hmode
    · have hplain : r.written 0xFF p latch = r.masked (r.rotated 0xFF) latch := by
        unfold Regs.written
        rw [hmode, h.enableSetReset]
        show r.masked (if (0#8).getLsbD p then _ else _) latch = _
        rw [if_neg (by simp)]
      rw [hplain, Regs.rotated, h.dataRotate]
      exact hmasked latch
    · have hspread : r.written 0xFF p latch =
          r.masked (Regs.spread ((0xFF#8).getLsbD p)) latch := by
        unfold Regs.written
        rw [hmode]
        rfl
      have hall : ∀ p : Fin 4, (0xFF#8).getLsbD p = true := by decide
      rw [hspread, hall]
      exact hmasked latch
  have hone : (0xFF#8).getLsbD k = true := by
    rw [show 0xFF#8 = BitVec.allOnes 8 from rfl, BitVec.getLsbD_allOnes]
    exact decide_eq_true hk
  rw [hwritten, BitVec.getLsbD_or, BitVec.getLsbD_and, BitVec.getLsbD_and, BitVec.getLsbD_xor,
    BitVec.getLsbD_not, show (0xFF : BitVec 8).getLsbD k = true from hone, decide_eq_true hk]
  cases r.bitMask.getLsbD k <;> cases latch.getLsbD k <;> rfl

/-- Only the bit mask is written. -/
theorem Xoring.outb {s : Adapter} (h : Xoring s.regs) (mask : BitVec 8) :
    Xoring (s.outb 0x3CF mask).regs ∧ (s.outb 0x3CF mask).regs.bitMask = mask ∧
      (s.outb 0x3CF mask).vram = s.vram := by
  have hregs : (s.outb 0x3CF mask).regs = { s.regs with bitMask := mask } := by
    show s.regs.outb 0x3CF mask = _
    simp [Regs.outb, h.gcIndex]
  rw [hregs]
  exact ⟨⟨h.mapMask, h.enableSetReset, h.dataRotate, h.gcIndex, h.mode⟩, rfl, rfl⟩

/-! ## The loops -/

/-- The half of the pixels of the checkerboard, by row and bit. -/
def OnBoard (half : Bool) (y : Int) (k : Nat) : Prop := half = true → (y + k) % 2 = 1

/-- The pixels of the byte column `byteX` that the mask lets through. -/
def InColumn (byteX y1 y2 : Int) (geom : BitVec 8) (half : Bool) (i : Int × Nat) : Prop :=
  ∃ y, (y1 ≤ y ∧ y < y2) ∧ InByte (80 * y + byteX) geom i ∧ OnBoard half y i.2

theorem mem_phaseRows {y1 y2 y : Int} {half : Bool} {phase : Nat} (hphase : phase ∈ phases half) :
    y ∈ rowsFrom (phaseStart y1 half phase) y2 (phaseStep half) ↔
      (y1 ≤ y ∧ y < y2) ∧ (half = true → y % 2 = phase) := by
  have hlt := List.mem_range.mp hphase
  unfold phaseStart phaseStep
  cases half with
  | false =>
    rw [mem_rowsFrom (by decide)]
    simp
  | true =>
    rw [if_pos rfl] at hlt ⊢
    rw [if_pos rfl, mem_rowsFrom (by decide)]
    simp only [true_implies]
    split_ifs <;> omega

theorem getLsbD_aa {k : Nat} : (0xAA : BitVec 8).getLsbD k = true ↔ k < 8 ∧ k % 2 = 1 := by
  by_cases hk : k < 8
  · revert k
    decide
  · rw [BitVec.getLsbD_of_ge _ _ (by omega)]
    simp [hk]

theorem getLsbD_55 {k : Nat} : (0x55 : BitVec 8).getLsbD k = true ↔ k < 8 ∧ k % 2 = 0 := by
  by_cases hk : k < 8
  · revert k
    decide
  · rw [BitVec.getLsbD_of_ge _ _ (by omega)]
    simp [hk]

theorem getLsbD_ff {k : Nat} : (0xFF : BitVec 8).getLsbD k = true ↔ k < 8 := by
  rw [show (0xFF : BitVec 8) = BitVec.allOnes 8 from rfl, BitVec.getLsbD_allOnes,
    decide_eq_true_iff]

/-- The mask of a phase has the bits that are on the checkerboard in its rows. -/
theorem getLsbD_middleMask {half : Bool} {phase k : Nat} {y : Int} (hphase : phase ∈ phases half)
    (hy : half = true → y % 2 = phase) :
    (middleMask half phase).getLsbD k = true ↔ k < 8 ∧ OnBoard half y k := by
  have hlt := List.mem_range.mp hphase
  unfold OnBoard middleMask
  cases half with
  | false => exact getLsbD_ff.trans ⟨fun h => ⟨h, nofun⟩, And.left⟩
  | true =>
    rw [if_pos rfl] at hlt ⊢
    have hy := hy rfl
    simp only [true_implies]
    split_ifs
    · rw [getLsbD_55]
      omega
    · rw [getLsbD_aa]
      omega

theorem getLsbD_columnMask {half : Bool} {phase k : Nat} {y : Int} {geom : BitVec 8}
    (hphase : phase ∈ phases half) (hy : half = true → y % 2 = phase) :
    (columnMask geom half phase).getLsbD k = true ↔
      geom.getLsbD k = true ∧ OnBoard half y k := by
  have hgeom : columnMask geom half phase = geom &&& middleMask half phase := by
    cases half with
    | false => exact (BitVec.and_allOnes (x := geom)).symm
    | true => rfl
  rw [hgeom, BitVec.getLsbD_and, Bool.and_eq_true, getLsbD_middleMask hphase hy]
  exact ⟨fun h => ⟨h.1, h.2.2⟩, fun h => ⟨h.1, BitVec.lt_of_getLsbD h.1, h.2⟩⟩

section Loops

variable {s : Adapter} {byteX y1 y2 : Int} {half : Bool}

/-- What a loop over the phases does, whose rounds invert the parts of their rows. -/
theorem phases_affect {step : Adapter → Nat → Adapter} (part : Int → Int × Nat → Prop)
    (hstep : ∀ s phase, phase ∈ phases half → Xoring s.regs → Xoring (step s phase).regs ∧
      Affects flip (fun i => ∃ y, ((y1 ≤ y ∧ y < y2) ∧ (half = true → y % 2 = phase)) ∧ part y i)
        (bits s.vram) (bits (step s phase).vram))
    (hpart : ∀ y y' i, part y i → part y' i → y = y') (hs : Xoring s.regs) :
    Xoring ((phases half).foldl step s).regs ∧
      Affects flip (fun i => ∃ y, (y1 ≤ y ∧ y < y2) ∧ part y i) (bits s.vram)
        (bits ((phases half).foldl step s).vram) := by
  have htwice : (phases half).Pairwise fun (phase phase' : Nat) => ∀ i,
      (∃ y, ((y1 ≤ y ∧ y < y2) ∧ (half = true → y % 2 = phase)) ∧ part y i) →
        (∃ y, ((y1 ≤ y ∧ y < y2) ∧ (half = true → y % 2 = phase')) ∧ part y i) →
          ∀ v, flip i (flip i v) = flip i v := by
    cases half with
    | false => exact List.pairwise_singleton _ _
    | true =>
      refine List.pairwise_pair.mpr ?_
      rintro i ⟨y, ⟨-, hy⟩, hi⟩ ⟨y', ⟨-, hy'⟩, hi'⟩
      have h0 : y % 2 = 0 := hy rfl
      have h1 : y' % 2 = 1 := hy' rfl
      have heq := hpart y y' i hi hi'
      omega
  obtain ⟨hregs, haff⟩ := Affects.foldl (fun s : Adapter => bits s.vram)
    (fun s => Xoring s.regs) _ hstep htwice hs
  refine ⟨hregs, haff.congr fun i => ⟨?_, ?_⟩⟩
  · rintro ⟨phase, -, y, ⟨hy, -⟩, hi⟩
    exact ⟨y, hy, hi⟩
  · rintro ⟨y, hy, hi⟩
    cases half with
    | false => exact ⟨0, List.mem_range.mpr Nat.one_pos, y, ⟨hy, nofun⟩, hi⟩
    | true =>
      exact ⟨(y % 2).toNat, List.mem_range.mpr (by rw [if_pos rfl]; omega), y,
        ⟨hy, fun _ => by omega⟩, hi⟩

theorem phaseStep_pos (half : Bool) : 0 < phaseStep half := by
  cases half <;> decide

theorem xorMasked_affects {mask : BitVec 8} (h : Xoring s.regs) (hmask : s.regs.bitMask = mask)
    (a : Int) :
    (xorMasked s a).regs = s.regs ∧
      Affects flip (InByte a mask) (bits s.vram) (bits (xorMasked s a).vram) := by
  rw [← hmask]
  exact Adapter.touch_affects h.draws a

/-- `XorColumn` inverts the pixels of its column. -/
theorem xorColumn_affects (byteX y1 y2 : Int) (half : Bool) (h : Xoring s.regs)
    (geom : BitVec 8) :
    Xoring (xorColumn byteX y1 y2 geom half s).regs ∧
      Affects flip (InColumn byteX y1 y2 geom half) (bits s.vram)
        (bits (xorColumn byteX y1 y2 geom half s).vram) := by
  refine phases_affect (fun y i => InByte (80 * y + byteX) geom i ∧ OnBoard half y i.2) ?_ ?_ h
  · intro s phase hphase hs
    have hset {y : Int} {i : Int × Nat} (hy : half = true → y % 2 = phase) :
        InByte (80 * y + byteX) (columnMask geom half phase) i ↔
          InByte (80 * y + byteX) geom i ∧ OnBoard half y i.2 := by
      unfold InByte
      rw [getLsbD_columnMask hphase hy, and_assoc]
    unfold xorColumnPhase
    dsimp only
    generalize columnMask geom half phase = mask at hset
    by_cases hzero : mask = 0
    · rw [if_pos hzero]
      refine ⟨hs, Affects.refl ?_⟩
      rintro i ⟨y, ⟨-, hy⟩, hi⟩
      have hbit := ((hset hy).mpr hi).2
      rw [hzero] at hbit
      simp at hbit
    · rw [if_neg hzero]
      obtain ⟨hx, hmask, hvram⟩ := hs.outb mask
      have hpart : ∀ y y' i, InByte (80 * y + byteX) mask i → InByte (80 * y' + byteX) mask i →
          y = y' := by
        intro y y' i hi hi'
        have h1 := hi.1
        have h2 := hi'.1
        omega
      obtain ⟨hregs, haff⟩ := rows_affect (fun s y => xorMasked s (80 * y + byteX))
        (fun s y hs => xorMasked_affects (hs ▸ hx) (hs ▸ hmask) (80 * y + byteX) |>.imp_left
          (·.trans hs)) hpart (phaseStart y1 half phase) y2 (phaseStep_pos half)
        (rfl : (s.outb 0x3CF mask).regs = _)
      refine ⟨hregs ▸ hx, ?_⟩
      rw [hvram] at haff
      refine haff.congr fun i => ⟨?_, ?_⟩
      · rintro ⟨y, hy, hi⟩
        rw [mem_phaseRows hphase] at hy
        exact ⟨y, hy, (hset hy.2).mp hi⟩
      · rintro ⟨y, hy, hi⟩
        exact ⟨y, (mem_phaseRows hphase).mpr hy, (hset hy.2).mpr hi⟩
  · intro y y' i hi hi'
    have := hi.1.1
    have := hi'.1.1
    omega

/-- The pixels of the `n` bytes from `a` on. -/
def InBytes (a : Int) (n : Nat) (mask : BitVec 8) (i : Int × Nat) : Prop :=
  (a ≤ i.1 ∧ i.1 < a + n) ∧ mask.getLsbD i.2

theorem xorRest_affects {mask : BitVec 8} (m : Nat) (q : Int) (h : Xoring s.regs)
    (hmask : s.regs.bitMask = mask) :
    (xorRest m q s).regs = s.regs ∧
      Affects flip (InBytes q m mask) (bits s.vram) (bits (xorRest m q s).vram) := by
  induction m generalizing q s with
  | zero => exact ⟨rfl, Affects.refl fun i hi => by have := hi.1; omega⟩
  | succ m ih =>
    obtain ⟨hregs, hfirst⟩ := xorMasked_affects h hmask q
    obtain ⟨hregs', hrest⟩ := ih (s := xorMasked s q) (q + 1) (hregs ▸ h) (hregs ▸ hmask)
    refine ⟨hregs'.trans hregs, (hfirst.comp hrest ?_).congr fun i => ?_⟩
    · intro i hi hi'
      have h1 := hi.1
      have h2 := hi'.1
      omega
    · unfold InByte InBytes
      rw [← or_and_right]
      refine and_congr_left' ?_
      omega

/-- Four at a time or one by one. -/
theorem xorRun_eq (m : Nat) (q : Int) (s : Adapter) : xorRun m q s = xorRest m q s := by
  induction m, q, s using xorRun.induct with
  | case1 m q s ih =>
    rw [xorRun, ih]
    simp only [xorRest, Int.add_zero, Int.add_assoc]
    rfl
  | case2 m q s hm => rw [xorRun]; exact hm

/-- `XorMiddle` inverts the pixels of its bytes. -/
theorem xorMiddle_affects (y1 y2 : Int) (half : Bool) {byteA byteB : Int} (ha : 0 ≤ byteA)
    (hb : byteB < 80) (h : Xoring s.regs) :
    Xoring (xorMiddle byteA byteB y1 y2 half s).regs ∧
      Affects flip
        (fun i => ∃ y, (y1 ≤ y ∧ y < y2) ∧
          InBytes (80 * y + byteA) (byteB - byteA + 1).toNat 0xFF i ∧ OnBoard half y i.2)
        (bits s.vram) (bits (xorMiddle byteA byteB y1 y2 half s).vram) := by
  unfold xorMiddle
  dsimp only
  have hpart (mask : BitVec 8) : ∀ y y' i,
      InBytes (80 * y + byteA) (byteB - byteA + 1).toNat mask i →
        InBytes (80 * y' + byteA) (byteB - byteA + 1).toNat mask i → y = y' := by
    intro y y' i hi hi'
    have h1 := hi.1
    have h2 := hi'.1
    omega
  split_ifs with hn
  · refine ⟨h, Affects.refl ?_⟩
    rintro i ⟨y, -, hi, -⟩
    have h1 := hi.1
    omega
  refine phases_affect (fun y i =>
    InBytes (80 * y + byteA) (byteB - byteA + 1).toNat 0xFF i ∧ OnBoard half y i.2) ?_
    (fun y y' i hi hi' => hpart 0xFF y y' i hi.1 hi'.1) h
  intro s phase hphase hs
  have hset {y : Int} {i : Int × Nat} (hy : half = true → y % 2 = phase) :
      InBytes (80 * y + byteA) (byteB - byteA + 1).toNat (middleMask half phase) i ↔
        InBytes (80 * y + byteA) (byteB - byteA + 1).toNat 0xFF i ∧ OnBoard half y i.2 := by
    unfold InBytes
    rw [getLsbD_middleMask hphase hy, getLsbD_ff]
    exact and_assoc.symm
  unfold xorMiddlePhase
  generalize middleMask half phase = mask at hset
  obtain ⟨hx, hmask, hvram⟩ := hs.outb mask
  obtain ⟨hregs, haff⟩ := rows_affect
    (fun s y => xorRun (byteB - byteA + 1).toNat (80 * y + byteA) s)
    (fun s y hs => by
      rw [xorRun_eq]
      exact (xorRest_affects _ (80 * y + byteA) (hs ▸ hx) (hs ▸ hmask)).imp_left (·.trans hs))
    (hpart mask) (phaseStart y1 half phase) y2 (phaseStep_pos half)
    (rfl : (s.outb 0x3CF mask).regs = _)
  refine ⟨hregs ▸ hx, ?_⟩
  rw [hvram] at haff
  refine haff.congr fun i => ⟨?_, ?_⟩
  · rintro ⟨y, hy, hi⟩
    rw [mem_phaseRows hphase] at hy
    exact ⟨y, hy, (hset hy.2).mp hi⟩
  · rintro ⟨y, hy, hi⟩
    exact ⟨y, (mem_phaseRows hphase).mpr hy, (hset hy.2).mpr hi⟩

end Loops

/-! ## The rectangle -/

/-- The pixel at the place is inverted. -/
def Inverted (x1 y1 x2 y2 : Int) (half : Bool) (i : Int × Nat) : Prop :=
  i.2 < 8 ∧ InRect x1 y1 x2 y2 (pixelX i) (pixelY i) ∧
    (half = true → (pixelX i + pixelY i) % 2 = 0)

section Rect

variable {s : Adapter} {x1 y1 x2 y2 : Int} {half : Bool} {i : Int × Nat}

/-- A column is a rectangle within one byte. -/
theorem inColumn_iff {byteX : Int} (lo hi : Int) {geom : BitVec 8} (hb : 0 ≤ byteX ∧ byteX < 80)
    (hlo : 0 ≤ lo) (hhi : hi ≤ 8)
    (hgeom : ∀ k, geom.getLsbD k = true ↔ k < 8 ∧ lo ≤ 7 - (k : Int) ∧ 7 - (k : Int) < hi) :
    InColumn byteX y1 y2 geom half i ↔
      Inverted (8 * byteX + lo) y1 (8 * byteX + hi) y2 half i := by
  obtain ⟨a, k⟩ := i
  unfold InColumn Inverted InRect InByte OnBoard pixelX pixelY
  dsimp only
  rw [hgeom]
  constructor
  · rintro ⟨y, hy, ⟨rfl, hk, hle, hlt⟩, hboard⟩
    have hdiv : (80 * y + byteX) / 80 = y := by omega
    have hmod : (80 * y + byteX) % 80 = byteX := by omega
    rw [hdiv, hmod]
    exact ⟨hk, ⟨by omega, hy⟩, fun h => by have := hboard h; omega⟩
  · rintro ⟨hk, ⟨hx, hy⟩, hboard⟩
    exact ⟨a / 80, hy, ⟨by omega, hk, by omega, by omega⟩, fun h => by have := hboard h; omega⟩

theorem inMiddle_iff (y1 y2 : Int) (half : Bool) {byteA byteB : Int} (ha : 0 ≤ byteA)
    (hb : byteB < 80) (i : Int × Nat) :
    (∃ y, (y1 ≤ y ∧ y < y2) ∧
        InBytes (80 * y + byteA) (byteB - byteA + 1).toNat 0xFF i ∧ OnBoard half y i.2) ↔
      Inverted (8 * byteA) y1 (8 * byteB + 8) y2 half i := by
  obtain ⟨a, k⟩ := i
  unfold Inverted InRect InBytes OnBoard pixelX pixelY
  dsimp only
  rw [getLsbD_ff]
  constructor
  · rintro ⟨y, hy, ⟨⟨hle, hlt⟩, hk⟩, hboard⟩
    have hdiv : a / 80 = y := by omega
    rw [hdiv]
    exact ⟨hk, ⟨by omega, hy⟩, fun h => by have := hboard h; omega⟩
  · rintro ⟨hk, ⟨hx, hy⟩, hboard⟩
    exact ⟨a / 80, hy, ⟨⟨by omega, by omega⟩, hk⟩, fun h => by have := hboard h; omega⟩

/-- Two rectangles side by side. -/
theorem Inverted.append {x : Int} (h1 : x1 ≤ x) (h2 : x ≤ x2) :
    Inverted x1 y1 x y2 half i ∨ Inverted x y1 x2 y2 half i ↔
      Inverted x1 y1 x2 y2 half i := by
  unfold Inverted InRect
  constructor
  · rintro (⟨hk, ⟨hx, hy⟩, hboard⟩ | ⟨hk, ⟨hx, hy⟩, hboard⟩)
    · exact ⟨hk, ⟨by omega, hy⟩, hboard⟩
    · exact ⟨hk, ⟨by omega, hy⟩, hboard⟩
  · rintro ⟨hk, ⟨hx, hy⟩, hboard⟩
    by_cases h : pixelX i < x
    · exact Or.inl ⟨hk, ⟨⟨hx.1, h⟩, hy⟩, hboard⟩
    · exact Or.inr ⟨hk, ⟨⟨Int.not_lt.mp h, hx.2⟩, hy⟩, hboard⟩

/-- On a rectangle that is not empty, and as wide as the screen at most. -/
theorem invertClipped_affects (y1 y2 : Int) (half : Bool) (h : Xoring s.regs) (h1 : 0 ≤ x1)
    (h12 : x1 < x2) (h2 : x2 ≤ 640) :
    Xoring (invertClipped x1 y1 x2 y2 half s).regs ∧
      Affects flip (Inverted x1 y1 x2 y2 half) (bits s.vram)
        (bits (invertClipped x1 y1 x2 y2 half s).vram) := by
  have hstart := Int.mul_ediv_add_emod x1 8
  have hend := Int.mul_ediv_add_emod (x2 - 1) 8
  unfold invertClipped
  dsimp only
  split_ifs with hbyte
  · obtain ⟨hx, haff⟩ := xorColumn_affects (x1 / 8) y1 y2 half h
      (0xFF#8 >>> (x1 % 8).toNat &&& 0xFF#8 <<< (7 - (x2 - 1) % 8).toNat)
    refine ⟨hx, haff.congr fun i => ?_⟩
    rw [inColumn_iff (x1 % 8) ((x2 - 1) % 8 + 1) (by omega) (by omega) (by omega),
      hstart, hbyte, ← Int.add_assoc, hend, Int.sub_add_cancel]
    intro k
    rw [BitVec.getLsbD_and, Bool.and_eq_true, getLsbD_left, getLsbD_right]
    omega
  · obtain ⟨hx, haff⟩ := xorColumn_affects (x1 / 8) y1 y2 half h
      (0xFF#8 >>> (x1 % 8).toNat)
    obtain ⟨hx', haff'⟩ := xorMiddle_affects y1 y2 half (show 0 ≤ x1 / 8 + 1 by omega)
      (show (x2 - 1) / 8 - 1 < 80 by omega) hx
    obtain ⟨hx'', haff''⟩ := xorColumn_affects ((x2 - 1) / 8) y1 y2 half hx'
      (0xFF#8 <<< (7 - (x2 - 1) % 8).toNat)
    have hleft (i : Int × Nat) : InColumn (x1 / 8) y1 y2 (0xFF#8 >>> (x1 % 8).toNat) half i ↔
        Inverted x1 y1 (8 * (x1 / 8) + 8) y2 half i := by
      rw [inColumn_iff (x1 % 8) 8 (by omega) (by omega) (by omega), hstart]
      intro k
      rw [getLsbD_left]
      omega
    have hmiddle := inMiddle_iff y1 y2 half (show 0 ≤ x1 / 8 + 1 by omega)
      (show (x2 - 1) / 8 - 1 < 80 by omega)
    have hright (i : Int × Nat) :
        InColumn ((x2 - 1) / 8) y1 y2 (0xFF#8 <<< (7 - (x2 - 1) % 8).toNat) half i ↔
          Inverted (8 * ((x2 - 1) / 8)) y1 x2 y2 half i := by
      rw [inColumn_iff 0 ((x2 - 1) % 8 + 1) (by omega) (by omega) (by omega),
        ← Int.add_assoc, hend, Int.sub_add_cancel, Int.add_zero]
      intro k
      rw [getLsbD_right]
      omega
    have hma : 8 * (x1 / 8 + 1) = 8 * (x1 / 8) + 8 := by omega
    have hmb : 8 * ((x2 - 1) / 8 - 1) + 8 = 8 * ((x2 - 1) / 8) := by omega
    rw [hma, hmb] at hmiddle
    refine ⟨hx'', (((haff.congr hleft).comp (haff'.congr hmiddle) ?_).comp (haff''.congr hright)
      ?_).congr fun i => ?_⟩
    · rintro i ⟨-, ⟨hx, -⟩, -⟩ ⟨-, ⟨hx', -⟩, -⟩
      omega
    · rintro i (⟨-, ⟨hx, -⟩, -⟩ | ⟨-, ⟨hx, -⟩, -⟩) ⟨-, ⟨hx', -⟩, -⟩ <;> omega
    · rw [Inverted.append (by omega) (by omega), Inverted.append (by omega) (by omega)]

/-- The rectangle is clipped to the screen. -/
theorem vgaInvertRectFast_affects (x1 y1 x2 y2 : Int) (half : Bool) (h : Xoring s.regs) :
    Xoring (vgaInvertRectFast x1 y1 x2 y2 half s).regs ∧
      Affects flip
        (fun i => OnScreen (pixelX i) (pixelY i) ∧ Inverted x1 y1 x2 y2 half i) (bits s.vram)
        (bits (vgaInvertRectFast x1 y1 x2 y2 half s).vram) := by
  have hclip (i : Int × Nat) : Inverted (if x1 < 0 then 0 else x1) (if y1 < 0 then 0 else y1)
      (if x2 > 640 then 640 else x2) (if y2 > 480 then 480 else y2) half i ↔
        OnScreen (pixelX i) (pixelY i) ∧ Inverted x1 y1 x2 y2 half i := by
    have hx : i.2 < 8 → 0 ≤ pixelX i ∧ pixelX i < 640 := by
      unfold pixelX
      omega
    unfold Inverted InRect OnScreen
    constructor
    · rintro ⟨hk, hrect, hboard⟩
      have hx := hx hk
      exact ⟨⟨hx, by omega⟩, hk, by omega, hboard⟩
    · rintro ⟨hscreen, hk, hrect, hboard⟩
      exact ⟨hk, by omega, hboard⟩
  unfold vgaInvertRectFast
  dsimp only
  by_cases hempty : (if x1 < 0 then 0 else x1) ≥ (if x2 > 640 then 640 else x2) ∨
      (if y1 < 0 then 0 else y1) ≥ if y2 > 480 then 480 else y2
  · rw [if_pos hempty]
    refine ⟨h, (Affects.refl fun i hi => ?_).congr hclip⟩
    have hrect := hi.2.1
    unfold InRect at hrect
    omega
  · rw [if_neg hempty]
    obtain ⟨hx, haff⟩ := invertClipped_affects (if y1 < 0 then 0 else y1)
      (if y2 > 480 then 480 else y2) half h (show 0 ≤ if x1 < 0 then 0 else x1 by omega)
      (show (if x1 < 0 then 0 else x1) < if x2 > 640 then 640 else x2 by omega) (by omega)
    exact ⟨hx, haff.congr hclip⟩

/-- The three steps together, whatever was set before, but for the write mode. -/
theorem vgaInvertRect_affects (x1 y1 x2 y2 : Int) (half : Bool)
    (h : s.regs.mode = 0 ∨ s.regs.mode = 2) :
    (vgaInvertRect x1 y1 x2 y2 half s).regs.Resting ∧
      Affects flip
        (fun i => OnScreen (pixelX i) (pixelY i) ∧ Inverted x1 y1 x2 y2 half i) (bits s.vram)
        (bits (vgaInvertRect x1 y1 x2 y2 half s).vram) := by
  have hbegin : Xoring (vgaBeginXor s).regs := by
    constructor
    case mode => simpa [vgaBeginXor, Adapter.outb, Regs.outb] using h
    all_goals simp [vgaBeginXor, Adapter.outb, Regs.outb]
  obtain ⟨hx, haff⟩ := vgaInvertRectFast_affects x1 y1 x2 y2 half hbegin
  refine ⟨?_, haff⟩
  unfold vgaInvertRect
  generalize vgaInvertRectFast x1 y1 x2 y2 half (vgaBeginXor s) = t at hx
  have hmap := hx.mapMask
  have hmode := hx.mode
  have hindex := hx.gcIndex
  constructor
  case mode => simpa [vgaEndXor, Adapter.outb, Regs.outb, hindex] using hmode
  all_goals simp [vgaEndXor, Adapter.outb, Regs.outb, hindex, hmap]

end Rect

/-- A rectangle from (`x1`, `y1`) to (`x2`, `y2`), without the last column and row. -/
structure Box where
  x1 : Int
  y1 : Int
  x2 : Int
  y2 : Int

def Box.Mem (b : Box) (x y : Int) : Prop := InRect b.x1 b.y1 b.x2 b.y2 x y

def Box.invert (b : Box) (half : Bool) (s : Adapter) : Adapter :=
  vgaInvertRect b.x1 b.y1 b.x2 b.y2 half s

/-- Each point of `b` is in one of the parts, and no point is in two of them. -/
structure Box.SplitsInto (b : Box) (parts : List Box) : Prop where
  cover : ∀ x y, (∃ c ∈ parts, c.Mem x y) ↔ b.Mem x y
  disjoint : parts.Pairwise fun c d => ∀ x y, ¬ (c.Mem x y ∧ d.Mem x y)

/-- What inverting the rectangle does. -/
structure InvertsExactly (b : Box) (half : Bool) (s : Adapter) : Prop where
  inside : ∀ x y, OnScreen x y → b.Mem x y → (half = true → (x + y) % 2 = 0) →
    ∀ p, pixel (b.invert half s).vram x y p = !pixel s.vram x y p
  outside : ∀ x y, OnScreen x y → ¬ (b.Mem x y ∧ (half = true → (x + y) % 2 = 0)) →
    pixel (b.invert half s).vram x y = pixel s.vram x y
  /-- The screen has 38400 bytes. -/
  others : ∀ a, ¬ (0 ≤ a ∧ a < 38400) → (b.invert half s).vram a = s.vram a
  twice : (b.invert half (b.invert half s)).vram = s.vram
  parts : ∀ parts, b.SplitsInto parts →
    (parts.foldl (fun s c => c.invert half s) s).vram = (b.invert half s).vram

/--
**Inverting.** The pixels of the rectangle that are on the screen are inverted, or those of one
colour of the checkerboard, and nothing else is. Twice is nothing, and parts may be taken in any
order.
-/
theorem vgaInvertRect_exact {s : Adapter} (h : s.regs.mode = 0 ∨ s.regs.mode = 2) (b : Box)
    (half : Bool) : InvertsExactly b half s := by
  have haff := (vgaInvertRect_affects b.x1 b.y1 b.x2 b.y2 half h).2
  have hmem {x y : Int} (hon : OnScreen x y) :
      (OnScreen (pixelX (place x y)) (pixelY (place x y)) ∧
        Inverted b.x1 b.y1 b.x2 b.y2 half (place x y)) ↔
          b.Mem x y ∧ (half = true → (x + y) % 2 = 0) := by
    obtain ⟨hk, hx, hy⟩ := pixel_place hon
    unfold Inverted
    rw [hx, hy]
    exact ⟨fun hi => hi.2.2, fun hi => ⟨hon, hk, hi⟩⟩
  refine ⟨?_, ?_, ?_, ?_, ?_⟩
  · intro x y hon hin hboard p
    exact congrFun ((haff (place x y)).1 ((hmem hon).mpr ⟨hin, hboard⟩)) p
  · intro x y hon hout
    exact (haff (place x y)).2 fun hi => hout ((hmem hon).mp hi)
  · intro a ha
    funext p
    refine BitVec.eq_of_getLsbD_eq fun k hk => ?_
    refine congrFun ((haff (a, k)).2 fun hi => ha ?_) p
    exact (onScreen_pixel_iff hk).mp hi.1
  · have hmode := (vgaInvertRect_affects b.x1 b.y1 b.x2 b.y2 half h).1.mode
    have haff' := (vgaInvertRect_affects b.x1 b.y1 b.x2 b.y2 half hmode).2
    refine vram_ext (haff.undo (fun i v => ?_) haff')
    funext p
    exact Bool.not_not (v p)
  · intro parts hparts
    have hloop := Affects.foldl (f := flip)
      (fun s : Adapter => bits s.vram) (fun s => s.regs.mode = 0 ∨ s.regs.mode = 2)
      (fun c i => OnScreen (pixelX i) (pixelY i) ∧ Inverted c.x1 c.y1 c.x2 c.y2 half i)
      (fun s (c : Box) _ hs =>
        (vgaInvertRect_affects c.x1 c.y1 c.x2 c.y2 half hs).imp_left fun hr => hr.mode)
      (hparts.disjoint.imp fun hdisj i hi hi' v =>
        absurd ⟨hi.2.2.1, hi'.2.2.1⟩ (hdisj (pixelX i) (pixelY i))) h
    refine vram_ext (Affects.unique (hloop.2.congr fun i => ?_) haff)
    constructor
    · rintro ⟨c, hc, hon, hk, hin, hboard⟩
      exact ⟨hon, hk, (hparts.cover _ _).mp ⟨c, hc, hin⟩, hboard⟩
    · rintro ⟨hon, hk, hin, hboard⟩
      obtain ⟨c, hc, hin⟩ := (hparts.cover _ _).mpr hin
      exact ⟨c, hc, hon, hk, hin, hboard⟩

/-- The adapter after `SwitchToMode12h`, with nothing on the screen. -/
def blank : Adapter where
  vram := fun _ _ => 0
  latch := fun _ => 0
  regs := ⟨2, 5, 0x0F, 0, 0, 0, 0, 0xFF⟩

theorem vgaInvertRect_exact_blank : InvertsExactly ⟨-3, 5, 20, 9⟩ true blank :=
  vgaInvertRect_exact (Or.inl rfl) ⟨-3, 5, 20, 9⟩ true

end Nolrem.Vga
