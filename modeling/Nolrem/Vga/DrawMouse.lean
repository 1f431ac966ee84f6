import Nolrem.Vga.BitmapBlit

/-!
# Drawing and removing the mouse

`VGADrawMouse` and `VGARemoveMouse` of `kernel/CLIPDRAW/driver/vga16/mouse.c`. The restore buffer is
the memory behind its address.
-/

namespace Nolrem.Vga

open Nolrem.Lib

/-! ## The code -/

/--
The arguments that both functions have, and the rows of the cursor. The cursor is at most as large
as the arrays and the restore buffer, and the position is that of the pointer less the hotspot.
-/
structure CursorAt where
  x : Int
  y : Int
  width : Int
  height : Int
  black : Int → BitVec 32
  white : Int → BitVec 32
  width_mem : 0 ≤ width ∧ width ≤ 32
  height_mem : 0 ≤ height ∧ height ≤ 32

/-- `plane_byte[plane] = *ptr;` after read map select is set, in read mode 0 -/
def readPlane (a : Int) (st : (Fin 4 → BitVec 8) × Adapter) (plane : Fin 4) :
    (Fin 4 → BitVec 8) × Adapter :=
  (Function.update st.1 plane (st.2.vram a plane),
    (outGc 4 (BitVec.ofNat 8 plane) st.2).read a)

/-- `plane_byte`, and the adapter after the reads -/
def readPlanes (a : Int) (s : Adapter) : (Fin 4 → BitVec 8) × Adapter :=
  [0, 1, 2, 3].foldl (readPlane a) (fun _ => 0, s)

/-- `vga_index` for the bit `k` from the left -/
def vgaIndex (planeByte : Fin 4 → BitVec 8) (k : Nat) : BitVec 8 :=
  ([0, 1, 2, 3] : List (Fin 4)).foldl
    (fun v plane => if (planeByte plane).getLsbD (7 - k) then v ||| 1#8 <<< (plane : Nat) else v) 0

/-- `mask |= 0x80 >> k;` for those `k` that are selected -/
def addBits (sel : Nat → Bool) (ks : List Nat) (mask : BitVec 8) : BitVec 8 :=
  ks.foldl (fun mask k => if sel k then mask ||| 0x80#8 >>> k else mask) mask

/-- The write pass -/
def writePass (a : Int) (blackMask whiteMask : BitVec 8) (s : Adapter) : Adapter :=
  let s := if blackMask ≠ 0 then (outGc 8 blackMask s).write a 0 else s
  if whiteMask ≠ 0 then
    let s := if blackMask ≠ 0 then s.read a else s
    (outGc 8 whiteMask s).write a 0x0F
  else s

namespace CursorAt

variable (c : CursorAt)

/-- `eff_width` -/
def effWidth : Int := if c.x + c.width ≥ 640 then 640 - c.x else c.width

def startByte : Int := c.x / 8

def endByte : Int := (c.x + c.effWidth - 1) / 8

/-- The address of `ptr` -/
def ptr (row b : Int) : Int := 80 * (c.y + row) + b

def col (b : Int) (k : Nat) : Int := b * 8 + k - c.x

/-- The column is one of the cursor. -/
def Inside (col : Int) : Prop := 0 ≤ col ∧ col < c.width

instance (col : Int) : Decidable (c.Inside col) := inferInstanceAs (Decidable (_ ∧ _))

/-- `black_row & cursor_bit` -/
def isBlack (row col : Int) : Bool := (c.black row).getLsbD (31 - col).toNat

/-- `white_row & cursor_bit` where the cursor is not black -/
def isWhite (row col : Int) : Bool :=
  !c.isBlack row col && (c.white row).getLsbD (31 - col).toNat

/-- The loop over the bits of a byte in `VGADrawMouse`: the restore buffer after it -/
def gather (row b : Int) (planeByte : Fin 4 → BitVec 8) (buf : Int → BitVec 8) : Int → BitVec 8 :=
  (List.range 8).foldl
    (fun buf k =>
      if c.Inside (c.col b k) then
        Function.update buf (row * c.width + c.col b k) (vgaIndex planeByte k)
      else buf) buf

/-- The loop over the bits of a byte in `VGADrawMouse`: the mask of a colour after it -/
def colourMask (b : Int) (isColour : Int → Bool) : BitVec 8 :=
  addBits
    (fun k => decide (c.Inside (c.col b k)) && decide (c.col b k < c.effWidth) &&
      isColour (c.col b k)) (List.range 8) 0

/-- The body of the loops of `VGADrawMouse` -/
def drawByte (row : Int) (st : Adapter × (Int → BitVec 8)) (b : Int) :
    Adapter × (Int → BitVec 8) :=
  let r := readPlanes (c.ptr row b) st.1
  (writePass (c.ptr row b) (c.colourMask b (c.isBlack row)) (c.colourMask b (c.isWhite row)) r.2,
    c.gather row b r.1 st.2)

/-- `VGADrawMouse` -/
def vgaDrawMouse (s : Adapter) (buf : Int → BitVec 8) : Adapter × (Int → BitVec 8) :=
  let st := (rowsFrom 0 c.height 1).foldl
    (fun st row => (rowsFrom c.startByte (c.endByte + 1) 1).foldl (c.drawByte row) st)
    (outGc 5 2 s, buf)
  (outGc 8 0xFF st.1, st.2)

/-- `group_mask` for the bit `k` -/
def groupMask (row b : Int) (buf : Int → BitVec 8) (doneMask : BitVec 8) (k : Nat) : BitVec 8 :=
  addBits
    (fun j => !doneMask.getLsbD (7 - j) &&
      (decide (0 ≤ c.col b j ∧ c.col b j < c.effWidth) &&
        decide (buf (row * c.width + c.col b j) = buf (row * c.width + c.col b k))))
    (List.range' (k + 1) (7 - k)) (0x80#8 >>> k)

/-- The loop over the bits of a byte in `VGARemoveMouse`: its body, with `done_mask` -/
def removeBit (row b : Int) (buf : Int → BitVec 8) (st : Adapter × BitVec 8) (k : Nat) :
    Adapter × BitVec 8 :=
  if st.2.getLsbD (7 - k) then st
  else if ¬ c.Inside (c.col b k) then (st.1, st.2 ||| 0x80#8 >>> k)
  else
    let group := c.groupMask row b buf st.2 k
    let s := (outGc 8 group st.1).write (c.ptr row b) (buf (row * c.width + c.col b k))
    let doneMask := st.2 ||| group
    (if doneMask ≠ 0xFF then s.read (c.ptr row b) else s, doneMask)

/-- The body of the loops of `VGARemoveMouse` -/
def removeByte (row : Int) (buf : Int → BitVec 8) (s : Adapter) (b : Int) : Adapter :=
  ((List.range 8).foldl (c.removeBit row b buf) (s.read (c.ptr row b), 0)).1

/-- `VGARemoveMouse` -/
def vgaRemoveMouse (s : Adapter) (buf : Int → BitVec 8) : Adapter :=
  outGc 8 0xFF ((rowsFrom 0 c.height 1).foldl
    (fun s row => (rowsFrom c.startByte (c.endByte + 1) 1).foldl (c.removeByte row buf) s)
    (outGc 5 2 s))

/-! ## What drawing and removing are -/

/-- The cursor has a black or a white pixel there. -/
def Shows (row col : Int) : Prop :=
  (0 ≤ row ∧ row < c.height) ∧ c.Inside col ∧
    ((c.black row).getLsbD (31 - col).toNat || (c.white row).getLsbD (31 - col).toNat) = true

/-- Drawing changes what the cursor shows on the screen, and removing makes it as before. -/
def DrawsAndRemoves : Prop :=
  ∀ (s : Adapter) (buf : Int → BitVec 8), s.regs.Resting →
    (∀ i : Int × Nat, i.2 < 8 → bits (c.vgaDrawMouse s buf).1.vram i ≠ bits s.vram i →
      OnScreen (pixelX i) (pixelY i) ∧ c.Shows (pixelY i - c.y) (pixelX i - c.x)) ∧
    (∀ j, (c.vgaDrawMouse s buf).2 j ≠ buf j → 0 ≤ j ∧ j < c.width * c.height) ∧
    (c.vgaRemoveMouse (c.vgaDrawMouse s buf).1 (c.vgaDrawMouse s buf).2).vram = s.vram

end CursorAt

/-! ## Bits -/

/-- The planes of a pixel are those of its index. -/
theorem getLsbD_vgaIndex (planeByte : Fin 4 → BitVec 8) (k : Nat) (p : Fin 4) :
    (vgaIndex planeByte k).getLsbD p = (planeByte p).getLsbD (7 - k) := by
  have hall : ∀ (b : Fin 4 → Bool) (p : Fin 4), (([0, 1, 2, 3] : List (Fin 4)).foldl
      (fun v plane => if b plane then v ||| 1#8 <<< (plane : Nat) else v) 0).getLsbD p = b p := by
    decide +kernel
  exact hall (fun p => (planeByte p).getLsbD (7 - k)) p

theorem ModeTwo.select {s : Adapter} (h : ModeTwo s.regs) (plane : BitVec 8) (a : Int) :
    ModeTwo ((outGc 4 plane s).read a).regs := by
  have hregs : ((outGc 4 plane s).read a).regs = { s.regs with gcIndex := 4 } := by
    simp [Adapter.read, outGc_regs, Regs.outb]
  rw [hregs]
  exact ⟨h.mapMask, h.dataRotate, h.mode⟩

theorem readPlane_vram (a : Int) (st : (Fin 4 → BitVec 8) × Adapter) (plane : Fin 4) :
    (readPlane a st plane).2.vram = st.2.vram := rfl

theorem readPlane_latch (a : Int) (st : (Fin 4 → BitVec 8) × Adapter) (plane : Fin 4) :
    (readPlane a st plane).2.latch = st.2.vram a := rfl

/-- The reads leave the byte in the latches. -/
theorem readPlanes_spec {s : Adapter} (h : ModeTwo s.regs) (a : Int) :
    (readPlanes a s).1 = s.vram a ∧ (readPlanes a s).2.vram = s.vram ∧
      (readPlanes a s).2.latch = s.vram a ∧ ModeTwo (readPlanes a s).2.regs := by
  refine ⟨?_, ?_, ?_, (((h.select 0 a).select 1 a).select 2 a).select 3 a⟩
  · funext p
    match p with
    | 0 => rfl
    | 1 => rfl
    | 2 => rfl
    | 3 => rfl
  · simp only [readPlanes, List.foldl_cons, List.foldl_nil, readPlane_vram]
  · simp only [readPlanes, List.foldl_cons, List.foldl_nil, readPlane_vram, readPlane_latch]

/-! ## A byte -/

/-- A write in write mode 2, with the byte in the latches -/
theorem write_affects {s : Adapter} (h : ModeTwo s.regs) {a : Int} (hlatch : s.latch = s.vram a)
    (mask val : BitVec 8) : ModeTwo ((outGc 8 mask s).write a val).regs ∧
      Affects (fun _ _ p => val.getLsbD (p : Fin 4)) (InByte a mask) (bits s.vram)
        (bits ((outGc 8 mask s).write a val).vram) := by
  have hmask := h.mask mask
  have hdraws := draws_of_mode_two hmask.mapMask hmask.dataRotate hmask.mode val
  have htouch : (outGc 8 mask s).write a val = (outGc 8 mask s).touch a val := by
    have hread : (outGc 8 mask s).read a = outGc 8 mask s := by
      show ({ outGc 8 mask s with latch := s.vram a } : Adapter) = _
      rw [← hlatch]
      rfl
    rw [Adapter.touch, hread]
  rw [htouch]
  obtain ⟨hregs, haff⟩ := Adapter.touch_affects hdraws a
  rw [outGc_eight] at haff
  exact ⟨hregs ▸ hmask, haff⟩

/-- Black and then white, where the masks have them. -/
theorem writePass_affects {s : Adapter} (h : ModeTwo s.regs) {a : Int}
    (hlatch : s.latch = s.vram a) {blackMask whiteMask : BitVec 8}
    (hdisjoint : ∀ k, blackMask.getLsbD k = true → whiteMask.getLsbD k = false) :
    ModeTwo (writePass a blackMask whiteMask s).regs ∧
      Affects (fun i _ _ => !blackMask.getLsbD i.2)
        (fun i => i.1 = a ∧ (blackMask.getLsbD i.2 = true ∨ whiteMask.getLsbD i.2 = true))
        (bits s.vram) (bits (writePass a blackMask whiteMask s).vram) := by
  have hnone {mask : BitVec 8} (hmask : ¬ mask ≠ 0) (i : Int × Nat) : ¬ InByte a mask i := by
    rintro ⟨-, hbit⟩
    rw [not_not.mp hmask] at hbit
    simp at hbit
  unfold writePass
  dsimp only
  obtain ⟨hready, hblack⟩ : ModeTwo
      (if blackMask ≠ 0 then (outGc 8 blackMask s).write a 0 else s).regs ∧
      Affects (fun i _ _ => !blackMask.getLsbD i.2) (InByte a blackMask) (bits s.vram)
        (bits (if blackMask ≠ 0 then (outGc 8 blackMask s).write a 0 else s).vram) := by
    split_ifs with hmask
    · obtain ⟨hready, haff⟩ := write_affects h hlatch blackMask 0
      refine ⟨hready, haff.congr_fun fun i hi v => ?_⟩
      rw [hi.2]
      exact funext fun p => BitVec.getLsbD_zero
    · exact ⟨h, Affects.refl (hnone hmask)⟩
  have hpass : (if blackMask ≠ 0 then (outGc 8 blackMask s).write a 0 else s).latch =
      (if blackMask ≠ 0 then (outGc 8 blackMask s).write a 0 else s).vram a ∨ blackMask ≠ 0 := by
    split_ifs with hmask
    · exact Or.inr hmask
    · exact Or.inl hlatch
  generalize (if blackMask ≠ 0 then (outGc 8 blackMask s).write a 0 else s) = t at *
  obtain ⟨hready', hwhite⟩ : ModeTwo
      (if whiteMask ≠ 0 then
        (outGc 8 whiteMask (if blackMask ≠ 0 then t.read a else t)).write a 0x0F else t).regs ∧
      Affects (fun i _ _ => !blackMask.getLsbD i.2) (InByte a whiteMask) (bits t.vram)
        (bits (if whiteMask ≠ 0 then
          (outGc 8 whiteMask (if blackMask ≠ 0 then t.read a else t)).write a 0x0F
          else t).vram) := by
    -- what is black is in the latches, too
    have hagain : ModeTwo (if blackMask ≠ 0 then t.read a else t).regs ∧
        (if blackMask ≠ 0 then t.read a else t).latch =
            (if blackMask ≠ 0 then t.read a else t).vram a ∧
          (if blackMask ≠ 0 then t.read a else t).vram = t.vram := by
      split_ifs with hmask
      · exact ⟨hready, rfl, rfl⟩
      · exact ⟨hready, hpass.resolve_right hmask, rfl⟩
    generalize (if blackMask ≠ 0 then t.read a else t) = u at hagain
    obtain ⟨hu, hlatch', hvram⟩ := hagain
    split_ifs with hmask
    · obtain ⟨hready', haff⟩ := write_affects hu hlatch' whiteMask 0x0F
      rw [hvram] at haff
      refine ⟨hready', haff.congr_fun fun i hi v => ?_⟩
      have hno : blackMask.getLsbD i.2 = false :=
        Bool.eq_false_iff.mpr fun hb => Bool.false_ne_true ((hdisjoint _ hb).symm.trans hi.2)
      rw [hno]
      exact funext getLsbD_planes
    · exact ⟨hready, Affects.refl (hnone hmask)⟩
  refine ⟨hready', (hblack.comp hwhite fun _ _ _ _ => rfl).congr fun i => ?_⟩
  unfold InByte
  exact and_or_left.symm

/-! ## Places and pixels of the cursor -/

namespace CursorAt

variable (c : CursorAt)

/-- The row and the byte of an address; the bytes of a row lie together. -/
def rowOf (a : Int) : Int := (a - c.startByte) / 80 - c.y

def byteOf (a : Int) : Int := c.startByte + (a - c.startByte) % 80

def colOf (i : Int × Nat) : Int := c.col (c.byteOf i.1) (7 - i.2)

/-- Where in the restore buffer the pixel at a place goes -/
def bufferIndex (i : Int × Nat) : Int := c.rowOf i.1 * c.width + c.colOf i

/-- The place is one of the cursor, in some row. -/
def Boxed (i : Int × Nat) : Prop := i.2 < 8 ∧ c.Inside (c.colOf i)

instance (i : Int × Nat) : Decidable (c.Boxed i) := inferInstanceAs (Decidable (_ ∧ _))

/-- The places of the byte `b` of a row -/
def ByteAt (row b : Int) (i : Int × Nat) : Prop := i.1 = c.ptr row b ∧ i.2 < 8

variable {c}

theorem effWidth_le : c.effWidth ≤ c.width := by
  unfold effWidth
  split_ifs <;> omega

theorem endByte_lt : c.endByte < c.startByte + 80 := by
  have hle := c.effWidth_le
  have hwidth := c.width_mem
  unfold endByte startByte
  omega

theorem ptr_rowOf (a : Int) : c.ptr (c.rowOf a) (c.byteOf a) = a := by
  unfold ptr rowOf byteOf
  omega

theorem rowOf_ptr {row b : Int} (hb : c.startByte ≤ b ∧ b < c.startByte + 80) :
    c.rowOf (c.ptr row b) = row ∧ c.byteOf (c.ptr row b) = b := by
  unfold ptr rowOf byteOf
  omega

theorem colOf_ptr {row b : Int} (hb : c.startByte ≤ b ∧ b < c.startByte + 80) (j : Nat) :
    c.colOf (c.ptr row b, j) = c.col b (7 - j) := by
  unfold colOf
  rw [(rowOf_ptr hb).2]

theorem bufferIndex_ptr {row b : Int} (hb : c.startByte ≤ b ∧ b < c.startByte + 80) (j : Nat) :
    c.bufferIndex (c.ptr row b, j) = row * c.width + c.col b (7 - j) := by
  unfold bufferIndex
  rw [colOf_ptr hb, (rowOf_ptr hb).1]

/-- Rows do not overlap in the restore buffer. -/
theorem index_inj {row row' u u' : Int} (hu : c.Inside u) (hu' : c.Inside u')
    (h : row * c.width + u = row' * c.width + u') : row = row' ∧ u = u' := by
  have hdiv {r v : Int} (hv : c.Inside v) : (r * c.width + v) / c.width = r := by
    obtain ⟨h0, hlt⟩ := hv
    rw [Int.add_comm, Int.add_mul_ediv_right _ _ (by omega), Int.ediv_eq_zero_of_lt h0 hlt,
      Int.zero_add]
  obtain rfl : row = row' := by rw [← hdiv (r := row) hu, h, hdiv hu']
  exact ⟨rfl, by omega⟩

/-- Every pixel of the cursor has its own place in the restore buffer. -/
theorem bufferIndex_inj {i j : Int × Nat} (hi : c.Boxed i) (hj : c.Boxed j)
    (h : c.bufferIndex i = c.bufferIndex j) : i = j := by
  obtain ⟨hrow, hcol⟩ := index_inj hi.2 hj.2 h
  have hbyte : c.byteOf i.1 = c.byteOf j.1 ∧ i.2 = j.2 := by
    have := hi.1
    have := hj.1
    unfold colOf col at hcol
    omega
  refine Prod.ext ?_ hbyte.2
  rw [← c.ptr_rowOf i.1, ← c.ptr_rowOf j.1, hrow, hbyte.1]

theorem index_mem {row u : Int} (hu : c.Inside u) (hrow : 0 ≤ row ∧ row < c.height) :
    0 ≤ row * c.width + u ∧ row * c.width + u < c.width * c.height := by
  have hwidth := c.width_mem
  unfold Inside at hu
  constructor
  · have := Int.mul_nonneg hrow.1 hwidth.1
    omega
  · have hle : row + 1 ≤ c.height := by omega
    have := Int.mul_le_mul_of_nonneg_right hle hwidth.1
    rw [Int.add_mul, Int.one_mul, Int.mul_comm c.height] at this
    omega

/-! ## Drawing -/

variable {row b : Int} {buf : Int → BitVec 8}

theorem getLsbD_colourMask {isColour : Int → Bool} {j : Nat} :
    (c.colourMask b isColour).getLsbD j = true ↔ j < 8 ∧ c.Inside (c.col b (7 - j)) ∧
      c.col b (7 - j) < c.effWidth ∧ isColour (c.col b (7 - j)) = true := by
  unfold colourMask
  unfold addBits
  rw [getLsbD_foldl_top fun k hk => List.mem_range.mp hk]
  simp only [List.mem_range, Bool.and_eq_true, decide_eq_true_iff]
  constructor
  · rintro (h | ⟨k, hk, ⟨⟨hin, heff⟩, hcolour⟩, rfl⟩)
    · simp at h
    · rw [show 7 - (7 - k) = k by omega]
      exact ⟨by omega, hin, heff, hcolour⟩
  · rintro ⟨hj, hin, heff, hcolour⟩
    exact Or.inr ⟨7 - j, by omega, ⟨⟨hin, heff⟩, hcolour⟩, by omega⟩

/-- The indices of a byte are stored, and nothing else. -/
theorem gather_spec (c : CursorAt) (row b : Int) (buf : Int → BitVec 8)
    (planeByte : Fin 4 → BitVec 8) :
    (∀ k < 8, c.Inside (c.col b k) →
      c.gather row b planeByte buf (row * c.width + c.col b k) = vgaIndex planeByte k) ∧
    ∀ j, (∀ k < 8, c.Inside (c.col b k) → j ≠ row * c.width + c.col b k) →
      c.gather row b planeByte buf j = buf j := by
  have hfold (n : Nat) : ∀ j,
      (∀ k < n, c.Inside (c.col b k) → j = row * c.width + c.col b k →
        (List.range n).foldl
          (fun buf k =>
            if c.Inside (c.col b k) then
              Function.update buf (row * c.width + c.col b k) (vgaIndex planeByte k)
            else buf) buf j = vgaIndex planeByte k) ∧
      ((∀ k < n, c.Inside (c.col b k) → j ≠ row * c.width + c.col b k) →
        (List.range n).foldl
          (fun buf k =>
            if c.Inside (c.col b k) then
              Function.update buf (row * c.width + c.col b k) (vgaIndex planeByte k)
            else buf) buf j = buf j) := by
    intro j
    induction n with
    | zero => exact ⟨fun k hk => absurd hk (Nat.not_lt_zero k), fun _ => rfl⟩
    | succ n ih =>
      obtain ⟨hstored, hkept⟩ := ih
      rw [List.range_succ, List.foldl_append, List.foldl_cons, List.foldl_nil]
      constructor
      · intro k hk hin hj
        by_cases hlast : k = n
        · rw [hlast] at hin hj ⊢
          rw [if_pos hin, hj, Function.update_self]
        · have hother : j ≠ row * c.width + c.col b n := by
            rw [hj]
            unfold col
            omega
          split_ifs with hn
          · rw [Function.update_of_ne hother]
            exact hstored k (by omega) hin hj
          · exact hstored k (by omega) hin hj
      · intro hj
        have hrest := hkept fun k hk => hj k (by omega)
        split_ifs with hn
        · rw [Function.update_of_ne (hj n (Nat.lt_succ_self n) hn), hrest]
        · exact hrest
  exact ⟨fun k hk hin => (hfold 8 _).1 k hk hin rfl, fun j => (hfold 8 j).2⟩

/-- The pixel at a place is drawn. -/
def Painted (c : CursorAt) (i : Int × Nat) : Prop :=
  c.Boxed i ∧ c.colOf i < c.effWidth ∧
    (c.isBlack (c.rowOf i.1) (c.colOf i) = true ∨ c.isWhite (c.rowOf i.1) (c.colOf i) = true)

instance (c : CursorAt) (i : Int × Nat) : Decidable (c.Painted i) :=
  inferInstanceAs (Decidable (_ ∧ _))

/-- The pixel at a place, and what the restore buffer has for it -/
def view (c : CursorAt) (st : Adapter × (Int → BitVec 8)) (i : Int × Nat) :
    (Fin 4 → Bool) × (Fin 4 → Bool) :=
  (bits st.1.vram i,
    if c.Boxed i then fun p => (st.2 (c.bufferIndex i)).getLsbD p else fun _ => false)

/-- What drawing makes of a pixel, and of what the restore buffer has for it -/
def drawn (c : CursorAt) (i : Int × Nat) (v : (Fin 4 → Bool) × (Fin 4 → Bool)) :
    (Fin 4 → Bool) × (Fin 4 → Bool) :=
  (if c.Painted i then fun _ => !c.isBlack (c.rowOf i.1) (c.colOf i) else v.1,
    if c.Boxed i then v.1 else fun _ => false)

/-- A byte is drawn, and goes to the restore buffer. -/
theorem drawByte_affects (row : Int) {st : Adapter × (Int → BitVec 8)} (h : ModeTwo st.1.regs)
    (hb : c.startByte ≤ b ∧ b < c.startByte + 80) :
    ModeTwo (c.drawByte row st b).1.regs ∧
      (∀ j, (c.drawByte row st b).2 j ≠ st.2 j → ∃ col, c.Inside col ∧ j = row * c.width + col) ∧
        Affects c.drawn (c.ByteAt row b) (c.view st) (c.view (c.drawByte row st b)) := by
  obtain ⟨hbyte, hvram, hlatch, hready⟩ := readPlanes_spec h (c.ptr row b)
  have hmasks (k : Nat) (hk : (c.colourMask b (c.isBlack row)).getLsbD k = true) :
      (c.colourMask b (c.isWhite row)).getLsbD k = false := by
    rw [Bool.eq_false_iff]
    intro hwhite
    have hblack := (getLsbD_colourMask.mp hk).2.2.2
    have := (getLsbD_colourMask.mp hwhite).2.2.2
    unfold isWhite at this
    rw [hblack] at this
    exact Bool.false_ne_true this
  obtain ⟨hready', hpass⟩ := writePass_affects hready
    (hlatch.trans (congrFun hvram.symm _)) hmasks
  obtain ⟨hstored, hkept⟩ := gather_spec c row b st.2 (readPlanes (c.ptr row b) st.1).1
  refine ⟨hready', fun j hj => ?_, fun i => ⟨?_, ?_⟩⟩
  · by_contra hno
    exact hj (hkept j fun k hk hin hindex => hno ⟨_, hin, hindex⟩)
  · rintro ⟨ha, hk⟩
    obtain ⟨a, k⟩ := i
    dsimp only at ha hk
    subst ha
    have hpainted : c.Painted (c.ptr row b, k) ↔ c.Inside (c.col b (7 - k)) ∧
        c.col b (7 - k) < c.effWidth ∧ (c.isBlack row (c.col b (7 - k)) = true ∨
          c.isWhite row (c.col b (7 - k)) = true) := by
      unfold Painted Boxed
      rw [colOf_ptr hb, (rowOf_ptr hb).1]
      exact and_congr_left fun _ => and_iff_right hk
    refine Prod.ext ?_ ?_
    · show bits _ (c.ptr row b, k) = if c.Painted (c.ptr row b, k) then _ else _
      split_ifs with hpaint
      · obtain ⟨hin, heff, hcolour⟩ := hpainted.mp hpaint
        have hblack : (c.colourMask b (c.isBlack row)).getLsbD k =
            c.isBlack row (c.col b (7 - k)) := by
          rw [Bool.eq_iff_iff, getLsbD_colourMask]
          exact ⟨fun h => h.2.2.2, fun h => ⟨hk, hin, heff, h⟩⟩
        have hset : (c.colourMask b (c.isBlack row)).getLsbD k = true ∨
            (c.colourMask b (c.isWhite row)).getLsbD k = true :=
          hcolour.imp (fun h => getLsbD_colourMask.mpr ⟨hk, hin, heff, h⟩)
            fun h => getLsbD_colourMask.mpr ⟨hk, hin, heff, h⟩
        refine ((hpass (c.ptr row b, k)).1 ⟨rfl, hset⟩).trans ?_
        show (fun _ : Fin 4 => !(c.colourMask b (c.isBlack row)).getLsbD k) =
          fun _ => !c.isBlack (c.rowOf (c.ptr row b)) (c.colOf (c.ptr row b, k))
        rw [hblack, colOf_ptr hb, (rowOf_ptr hb).1]
      · refine (hpass (c.ptr row b, k)).2 fun h => hpaint (hpainted.mpr ?_)
        rcases h.2 with hblack | hwhite
        · obtain ⟨-, hin, heff, hcolour⟩ := getLsbD_colourMask.mp hblack
          exact ⟨hin, heff, Or.inl hcolour⟩
        · obtain ⟨-, hin, heff, hcolour⟩ := getLsbD_colourMask.mp hwhite
          exact ⟨hin, heff, Or.inr hcolour⟩
    · show (if c.Boxed (c.ptr row b, k) then _ else _) =
        if c.Boxed (c.ptr row b, k) then bits st.1.vram (c.ptr row b, k) else _
      split_ifs with hbox
      · have hin : c.Inside (c.col b (7 - k)) := (colOf_ptr hb k) ▸ hbox.2
        funext p
        rw [bufferIndex_ptr hb]
        show (c.gather row b (readPlanes (c.ptr row b) st.1).1 st.2 _).getLsbD p = _
        rw [hstored (7 - k) (by omega) hin, getLsbD_vgaIndex, hbyte, show 7 - (7 - k) = k by omega]
        rfl
      · rfl
  · intro hi
    refine Prod.ext ?_ ?_
    · refine (hpass i).2 fun h => hi ⟨h.1, ?_⟩
      exact h.2.elim BitVec.lt_of_getLsbD BitVec.lt_of_getLsbD
    · show (if c.Boxed i then _ else _) = if c.Boxed i then _ else _
      split_ifs with hbox
      · have hother (k : Nat) (hk : k < 8) (hin : c.Inside (c.col b k)) :
            c.bufferIndex i ≠ row * c.width + c.col b k := by
          intro hindex
          have hcol : c.col b (7 - (7 - k)) = c.col b k := by
            rw [show 7 - (7 - k) = k by omega]
          have hbox' : c.Boxed (c.ptr row b, 7 - k) := by
            refine ⟨by dsimp only; omega, ?_⟩
            rwa [colOf_ptr hb, hcol]
          have hplace := bufferIndex_inj hbox hbox' (by rw [hindex, bufferIndex_ptr hb, hcol])
          exact hi (hplace ▸ ⟨rfl, hbox'.1⟩)
        funext p
        show (c.gather row b (readPlanes (c.ptr row b) st.1).1 st.2 _).getLsbD p = _
        rw [hkept _ hother]
      · rfl

/-- The places of the bytes that the loops visit -/
def Visited (c : CursorAt) (i : Int × Nat) : Prop :=
  ∃ row ∈ rowsFrom 0 c.height 1, ∃ b ∈ rowsFrom c.startByte (c.endByte + 1) 1, c.ByteAt row b i

theorem mem_bytes (hb : b ∈ rowsFrom c.startByte (c.endByte + 1) 1) :
    c.startByte ≤ b ∧ b < c.startByte + 80 := by
  rw [mem_rowsFrom_one] at hb
  have := c.endByte_lt
  omega

/-- A loop over the bytes of the cursor, each of which has its part. -/
theorem bytes_affect {σ β : Type} {f : Int × Nat → β → β} (out : σ → Int × Nat → β)
    (I : σ → Prop) {step : Int → σ → Int → σ}
    (hstep : ∀ row ∈ rowsFrom 0 c.height 1, ∀ b, c.startByte ≤ b ∧ b < c.startByte + 80 → ∀ s, I s →
      I (step row s b) ∧ Affects f (c.ByteAt row b) (out s) (out (step row s b)))
    {s : σ} (hs : I s) :
    I ((rowsFrom 0 c.height 1).foldl
        (fun s row => (rowsFrom c.startByte (c.endByte + 1) 1).foldl (step row) s) s) ∧
      Affects f c.Visited (out s)
        (out ((rowsFrom 0 c.height 1).foldl
          (fun s row => (rowsFrom c.startByte (c.endByte + 1) 1).foldl (step row) s) s)) := by
  have hrow (t : σ) (row : Int) (hrow : row ∈ rowsFrom 0 c.height 1) (ht : I t) :
      I ((rowsFrom c.startByte (c.endByte + 1) 1).foldl (step row) t) ∧
        Affects f (fun i => ∃ b ∈ rowsFrom c.startByte (c.endByte + 1) 1, c.ByteAt row b i) (out t)
          (out ((rowsFrom c.startByte (c.endByte + 1) 1).foldl (step row) t)) := by
    refine Affects.foldl out I (c.ByteAt row)
      (fun u b hb hu => hstep row hrow b (mem_bytes hb) u hu) ?_ ht
    refine (pairwise_rowsFrom Nat.one_pos).imp fun hlt i hi hi' v => ?_
    have := hi.1.symm.trans hi'.1
    unfold ptr at this
    omega
  refine Affects.foldl out I _ hrow ?_ hs
  refine (pairwise_rowsFrom Nat.one_pos).imp fun hlt i hi hi' v => ?_
  obtain ⟨b, hb, hi⟩ := hi
  obtain ⟨b', hb', hi'⟩ := hi'
  have hb := mem_bytes hb
  have hb' := mem_bytes hb'
  have := hi.1.symm.trans hi'.1
  unfold ptr at this
  omega

theorem vgaDrawMouse_affects {s : Adapter} (h : s.regs.Resting) (buf : Int → BitVec 8) :
    ModeTwo (c.vgaDrawMouse s buf).1.regs ∧
      (∀ j, (c.vgaDrawMouse s buf).2 j ≠ buf j → 0 ≤ j ∧ j < c.width * c.height) ∧
        Affects c.drawn c.Visited (c.view (s, buf)) (c.view (c.vgaDrawMouse s buf)) := by
  have hstep (row : Int) (hrow : row ∈ rowsFrom 0 c.height 1) (b : Int)
      (hb : c.startByte ≤ b ∧ b < c.startByte + 80) (st : Adapter × (Int → BitVec 8))
      (hst : ModeTwo st.1.regs ∧ ∀ j, st.2 j ≠ buf j → 0 ≤ j ∧ j < c.width * c.height) :
      (ModeTwo (c.drawByte row st b).1.regs ∧
          ∀ j, (c.drawByte row st b).2 j ≠ buf j → 0 ≤ j ∧ j < c.width * c.height) ∧
        Affects c.drawn (c.ByteAt row b) (c.view st) (c.view (c.drawByte row st b)) := by
    obtain ⟨hready, hbuf, haff⟩ := drawByte_affects row hst.1 hb
    refine ⟨⟨hready, fun j hj => ?_⟩, haff⟩
    by_cases hsame : (c.drawByte row st b).2 j = st.2 j
    · exact hst.2 j (hsame ▸ hj)
    · obtain ⟨col, hcol, rfl⟩ := hbuf j hsame
      exact index_mem hcol ((mem_rowsFrom_one).mp hrow)
  obtain ⟨⟨hready, hbuf⟩, haff⟩ := bytes_affect c.view
    (fun st => ModeTwo st.1.regs ∧ ∀ j, st.2 j ≠ buf j → 0 ≤ j ∧ j < c.width * c.height) hstep
    (s := (outGc 5 2 s, buf)) ⟨h.modeTwo, fun j hj => absurd rfl hj⟩
  exact ⟨hready.mask 0xFF, hbuf, haff⟩

/-! ## Removing -/

/-- What removing makes of a pixel -/
def restored (c : CursorAt) (buf : Int → BitVec 8) (i : Int × Nat) (v : Fin 4 → Bool) :
    Fin 4 → Bool :=
  if c.Boxed i then fun p => (buf (c.bufferIndex i)).getLsbD p else v

/-- The bits that are written with the bit `k` are those of other columns with its value. -/
theorem getLsbD_groupMask {doneMask : BitVec 8} {k j : Nat} (hk : k < 8) :
    (c.groupMask row b buf doneMask k).getLsbD j = true ↔ j = 7 - k ∨
      ∃ k', (k < k' ∧ k' < 8) ∧ (doneMask.getLsbD (7 - k') = false ∧
        (0 ≤ c.col b k' ∧ c.col b k' < c.effWidth) ∧
          buf (row * c.width + c.col b k') = buf (row * c.width + c.col b k)) ∧ j = 7 - k' := by
  have hrange (k' : Nat) : k' ∈ List.range' (k + 1) (7 - k) ↔ k < k' ∧ k' < 8 := by
    rw [List.mem_range'_1]
    omega
  unfold groupMask
  unfold addBits
  rw [getLsbD_foldl_top fun k' hk' => ((hrange k').mp hk').2, getLsbD_top hk]
  simp only [hrange, Bool.and_eq_true, Bool.not_eq_true', decide_eq_true_iff]

/-- The loop over the bits, after those before `n`; `s` is what was there before it. -/
structure Removing (c : CursorAt) (row b : Int) (buf : Int → BitVec 8) (s : Adapter) (n : Nat)
    (st : Adapter × BitVec 8) : Prop where
  ready : ModeTwo st.1.regs
  latch : st.2 ≠ 0xFF → st.1.latch = st.1.vram (c.ptr row b)
  seen : ∀ k < n, st.2.getLsbD (7 - k) = true
  affects : Affects (fun i _ p => (buf (c.bufferIndex i)).getLsbD (p : Fin 4))
    (fun i => i.1 = c.ptr row b ∧ st.2.getLsbD i.2 = true ∧ c.Boxed i) (bits s.vram)
    (bits st.1.vram)

/-- A place of the byte, by the number of its bit from the left -/
theorem boxed_ptr_iff (hb : c.startByte ≤ b ∧ b < c.startByte + 80) {k : Nat} (hk : k < 8) :
    c.Boxed (c.ptr row b, 7 - k) ↔ c.Inside (c.col b k) := by
  unfold Boxed
  rw [colOf_ptr hb, show 7 - (7 - k) = k by omega]
  exact and_iff_right (by dsimp only; omega)

/-- What is written with the bit `n` is for places of the cursor, and what they had. -/
theorem groupMask_boxed (hb : c.startByte ≤ b ∧ b < c.startByte + 80) {doneMask : BitVec 8}
    {n : Nat} (hn : n < 8) (hin : c.Inside (c.col b n)) {i : Int × Nat}
    (hi : InByte (c.ptr row b) (c.groupMask row b buf doneMask n) i) :
    c.Boxed i ∧ buf (c.bufferIndex i) = buf (row * c.width + c.col b n) := by
  obtain ⟨a, j⟩ := i
  obtain ⟨rfl, hbit⟩ := hi
  rcases (getLsbD_groupMask hn).mp hbit with rfl | ⟨k, hk, ⟨-, hcol, hvalue⟩, rfl⟩
  · rw [boxed_ptr_iff hb hn, bufferIndex_ptr hb, show 7 - (7 - n) = n by omega]
    exact ⟨hin, rfl⟩
  · rw [boxed_ptr_iff hb hk.2, bufferIndex_ptr hb, show 7 - (7 - k) = k by omega]
    have := c.effWidth_le
    exact ⟨⟨hcol.1, by omega⟩, hvalue⟩

theorem Removing.removeBit {s : Adapter} {n : Nat} {st : Adapter × BitVec 8}
    (hb : c.startByte ≤ b ∧ b < c.startByte + 80) (h : Removing c row b buf s n st) (hn : n < 8) :
    Removing c row b buf s (n + 1) (c.removeBit row b buf st n) := by
  unfold CursorAt.removeBit
  dsimp only
  have hnext {done : BitVec 8} (hold : ∀ j, st.2.getLsbD j = true → done.getLsbD j = true)
      (hbit : done.getLsbD (7 - n) = true) : ∀ k < n + 1, done.getLsbD (7 - k) = true := by
    intro k hk
    rcases Nat.lt_succ_iff_lt_or_eq.mp hk with hlt | rfl
    · exact hold _ (h.seen k hlt)
    · exact hbit
  by_cases hdone : st.2.getLsbD (7 - n) = true
  · rw [if_pos hdone]
    exact ⟨h.ready, h.latch, hnext (fun _ => id) hdone, h.affects⟩
  rw [if_neg hdone]
  have hfull : st.2 ≠ 0xFF := by
    intro heq
    rw [heq] at hdone
    exact hdone (getLsbD_byte.mpr (by omega))
  by_cases hin : c.Inside (c.col b n)
  · rw [if_neg (not_not.mpr hin)]
    obtain ⟨hready, haff⟩ := write_affects h.ready (h.latch hfull)
      (c.groupMask row b buf st.2 n) (buf (row * c.width + c.col b n))
    generalize hgroup : c.groupMask row b buf st.2 n = group at hready haff ⊢
    generalize (outGc 8 group st.1).write (c.ptr row b) (buf (row * c.width + c.col b n)) = t
      at hready haff ⊢
    have hboxed (i : Int × Nat) (hi : InByte (c.ptr row b) group i) :=
      groupMask_boxed hb hn hin (hgroup ▸ hi)
    have hsame : (if st.2 ||| group ≠ 0xFF then t.read (c.ptr row b) else t).vram = t.vram ∧
        (if st.2 ||| group ≠ 0xFF then t.read (c.ptr row b) else t).regs = t.regs := by
      split_ifs <;> exact ⟨rfl, rfl⟩
    refine ⟨hsame.2 ▸ hready, fun hdone' => ?_, hnext (fun j hj => ?_) ?_, ?_⟩
    · dsimp only at hdone' ⊢
      rw [if_pos hdone']
      rfl
    · rw [BitVec.getLsbD_or, hj, Bool.true_or]
    · have hbit : group.getLsbD (7 - n) = true := by
        rw [← hgroup, getLsbD_groupMask hn]
        exact Or.inl rfl
      rw [BitVec.getLsbD_or, hbit, Bool.or_true]
    · have haff' := haff.congr_fun (g := fun i _ p => (buf (c.bufferIndex i)).getLsbD (p : Fin 4))
        fun i hi v => by rw [(hboxed i hi).2]
      dsimp only
      rw [hsame.1]
      refine (h.affects.comp haff' fun _ _ _ _ => rfl).congr fun i => ?_
      rw [BitVec.getLsbD_or, Bool.or_eq_true]
      constructor
      · rintro (⟨ha, hbit, hbox⟩ | hi)
        · exact ⟨ha, Or.inl hbit, hbox⟩
        · exact ⟨hi.1, Or.inr hi.2, (hboxed i hi).1⟩
      · rintro ⟨ha, hbit | hbit, hbox⟩
        · exact Or.inl ⟨ha, hbit, hbox⟩
        · exact Or.inr ⟨ha, hbit⟩
  · rw [if_pos hin]
    refine ⟨h.ready, fun _ => h.latch hfull, hnext (fun j hj => ?_) ?_,
      h.affects.congr fun i => and_congr_right fun ha => and_congr_left fun hbox => ?_⟩
    · rw [BitVec.getLsbD_or, hj, Bool.true_or]
    · rw [BitVec.getLsbD_or, (getLsbD_top hn).mpr rfl, Bool.or_true]
    · rw [BitVec.getLsbD_or, Bool.or_eq_true, getLsbD_top hn]
      refine (or_iff_left fun hbit => hin ?_).symm
      obtain ⟨a, j⟩ := i
      dsimp only at ha hbit
      rw [ha, hbit] at hbox
      exact (boxed_ptr_iff hb hn).mp hbox

theorem removeByte_affects {s : Adapter} (h : ModeTwo s.regs)
    (hb : c.startByte ≤ b ∧ b < c.startByte + 80) :
    ModeTwo (c.removeByte row buf s b).regs ∧
      Affects (c.restored buf) (c.ByteAt row b) (bits s.vram)
        (bits (c.removeByte row buf s b).vram) := by
  have hloop (n : Nat) (hn : n ≤ 8) : Removing c row b buf s n
      ((List.range n).foldl (c.removeBit row b buf) (s.read (c.ptr row b), 0)) := by
    induction n with
    | zero =>
      refine ⟨h, fun _ => rfl, fun k hk => absurd hk (Nat.not_lt_zero k), Affects.refl ?_⟩
      rintro i ⟨-, hbit, -⟩
      simp at hbit
    | succ n ih =>
      rw [List.range_succ, List.foldl_append, List.foldl_cons, List.foldl_nil]
      exact (ih (by omega)).removeBit hb hn
  have hend := hloop 8 (Nat.le_refl 8)
  refine ⟨hend.ready, fun i => ⟨fun hi => ?_, fun hi => ?_⟩⟩
  · unfold restored
    split_ifs with hbox
    · have hbit := hend.seen (7 - i.2) (by omega)
      rw [show 7 - (7 - i.2) = i.2 by have := hi.2; omega] at hbit
      exact (hend.affects i).1 ⟨hi.1, hbit, hbox⟩
    · exact (hend.affects i).2 fun h => hbox h.2.2
  · exact (hend.affects i).2 fun h => hi ⟨h.1, h.2.2.1⟩

theorem vgaRemoveMouse_affects {s : Adapter} (h : s.regs.Resting) (buf : Int → BitVec 8) :
    Affects (c.restored buf) c.Visited (bits s.vram)
      (bits (c.vgaRemoveMouse s buf).vram) := by
  have hstep (row : Int) (_ : row ∈ rowsFrom 0 c.height 1) (b : Int)
      (hb : c.startByte ≤ b ∧ b < c.startByte + 80) (t : Adapter) (ht : ModeTwo t.regs) :
      ModeTwo (c.removeByte row buf t b).regs ∧
        Affects (c.restored buf) (c.ByteAt row b) (bits t.vram)
          (bits (c.removeByte row buf t b).vram) := removeByte_affects ht hb
  exact (bytes_affect (fun s : Adapter => bits s.vram) (fun s => ModeTwo s.regs) hstep
    (s := outGc 5 2 s) (h.modeTwo)).2

/-- The restore buffer has what was drawn over, wherever that is. -/
theorem vgaRemoveMouse_vgaDrawMouse {s : Adapter} (h : s.regs.Resting) (buf : Int → BitVec 8) :
    (c.vgaRemoveMouse (c.vgaDrawMouse s buf).1 (c.vgaDrawMouse s buf).2).vram = s.vram := by
  obtain ⟨hready, -, hdraw⟩ := vgaDrawMouse_affects (c := c) h buf
  have hremove := vgaRemoveMouse_affects (c := c) hready.resting (c.vgaDrawMouse s buf).2
  refine vram_ext (funext fun i => ?_)
  by_cases hi : c.Visited i
  · have hafter : _ = c.drawn i _ := (hdraw i).1 hi
    rw [(hremove i).1 hi]
    unfold restored
    split_ifs with hbox
    · have hbuf := congrArg Prod.snd hafter
      unfold view drawn at hbuf
      dsimp only at hbuf
      rwa [if_pos hbox, if_pos hbox] at hbuf
    · have hpixel := congrArg Prod.fst hafter
      unfold view drawn at hpixel
      dsimp only at hpixel
      rwa [if_neg fun hpaint : c.Painted i => hbox hpaint.1] at hpixel
  · rw [(hremove i).2 hi]
    exact congrArg Prod.fst ((hdraw i).2 hi)

/-! ## When drawing is right -/

theorem shows_of_painted {i : Int × Nat} (hi : c.Visited i) (hpaint : c.Painted i) :
    c.Shows (c.rowOf i.1) (c.colOf i) ∧ c.x + c.colOf i < 640 := by
  obtain ⟨row, hrow, b, hb, ha, -⟩ := hi
  obtain ⟨hbox, heff, hcolour⟩ := hpaint
  rw [ha, (rowOf_ptr (mem_bytes hb)).1] at hcolour ⊢
  refine ⟨⟨mem_rowsFrom_one.mp hrow, hbox.2, ?_⟩, ?_⟩
  · rw [Bool.or_eq_true]
    unfold isWhite at hcolour
    exact hcolour.imp id fun h => (Bool.and_eq_true_iff.mp h).2
  · unfold effWidth at heff
    split_ifs at heff <;> omega

/-- On the screen a pixel of the cursor is where its place says. -/
theorem pixel_of_place {i : Int × Nat} (hk : i.2 < 8) (hx : 0 ≤ c.x + c.colOf i)
    (hlt : c.x + c.colOf i < 640) :
    pixelX i = c.x + c.colOf i ∧ pixelY i = c.y + c.rowOf i.1 := by
  have ha := c.ptr_rowOf i.1
  unfold ptr at ha
  unfold pixelX pixelY
  unfold colOf col at hx hlt ⊢
  omega

theorem drawsAndRemoves_of_onScreen
    (h : ∀ row col, c.Shows row col → c.x + col < 640 → OnScreen (c.x + col) (c.y + row)) :
    c.DrawsAndRemoves := by
  intro s buf hs
  obtain ⟨-, hbuf, haff⟩ := vgaDrawMouse_affects (c := c) hs buf
  refine ⟨fun i hk hchanged => ?_, hbuf, vgaRemoveMouse_vgaDrawMouse hs buf⟩
  have hvisited : c.Visited i := by
    by_contra hno
    exact hchanged (congrArg Prod.fst ((haff i).2 hno))
  have hpaint : c.Painted i := by
    by_contra hno
    have hafter : bits (c.vgaDrawMouse s buf).1.vram i = if c.Painted i then _ else _ :=
      congrArg Prod.fst ((haff i).1 hvisited)
    rw [if_neg hno] at hafter
    exact hchanged hafter
  obtain ⟨hshows, hlt⟩ := shows_of_painted hvisited hpaint
  have hon := h _ _ hshows hlt
  obtain ⟨hpx, hpy⟩ := pixel_of_place hk hon.1.1 hlt
  rw [hpx, hpy, add_sub_cancel_left, add_sub_cancel_left]
  exact ⟨hon, hshows⟩

/-- Memory with one byte everywhere -/
def filled (val : BitVec 8) : Adapter where
  vram _ _ := val
  latch _ := 0
  regs := ⟨0, 0, 0x0F, 0, 0, 0, 2, 0xFF⟩

/-- What is drawn to the left of the screen, above or below it, is drawn elsewhere. -/
theorem not_drawsAndRemoves (row col : Int) (hshows : c.Shows row col) (hlt : c.x + col < 640)
    (hoff : ¬ OnScreen (c.x + col) (c.y + row)) : ¬ c.DrawsAndRemoves := by
  intro h
  obtain ⟨hrow, hcol, hcolour⟩ := hshows
  have heff : col < c.effWidth := by
    unfold Inside at hcol
    unfold effWidth
    split_ifs <;> omega
  have hb : c.startByte ≤ (c.x + col) / 8 ∧ (c.x + col) / 8 < c.endByte + 1 := by
    unfold Inside at hcol
    unfold startByte endByte
    omega
  have hk : (7 - (c.x + col) % 8).toNat < 8 := by omega
  obtain ⟨k, hk'⟩ : ∃ k, k = (7 - (c.x + col) % 8).toNat := ⟨_, rfl⟩
  have hb80 : c.startByte ≤ (c.x + col) / 8 ∧ (c.x + col) / 8 < c.startByte + 80 :=
    mem_bytes (mem_rowsFrom_one.mpr hb)
  have hcolOf : c.colOf (c.ptr row ((c.x + col) / 8), k) = col := by
    rw [colOf_ptr hb80]
    unfold CursorAt.col
    omega
  have hvisited : c.Visited (c.ptr row ((c.x + col) / 8), k) :=
    ⟨row, mem_rowsFrom_one.mpr hrow, _, mem_rowsFrom_one.mpr hb, rfl, hk' ▸ hk⟩
  have hpaint : c.Painted (c.ptr row ((c.x + col) / 8), k) := by
    unfold Painted Boxed
    rw [hcolOf, (rowOf_ptr hb80).1]
    refine ⟨⟨hk' ▸ hk, hcol⟩, heff, ?_⟩
    unfold isWhite isBlack
    cases hblack : (c.black row).getLsbD (31 - col).toNat with
    | false => simpa [hblack] using hcolour
    | true => exact Or.inl rfl
  -- white is drawn over black, and black over white
  obtain ⟨val, hval⟩ : ∃ val : BitVec 8, val.getLsbD k = c.isBlack row col := by
    cases c.isBlack row col with
    | false => exact ⟨0, BitVec.getLsbD_zero⟩
    | true => exact ⟨0xFF, getLsbD_byte.mpr (hk' ▸ hk)⟩
  have hrest : (filled val).regs.Resting := ⟨rfl, rfl, Or.inr rfl⟩
  obtain ⟨-, -, haff⟩ := vgaDrawMouse_affects (c := c) hrest fun _ => 0
  have hafter : bits (c.vgaDrawMouse (filled val) fun _ => 0).1.vram
      (c.ptr row ((c.x + col) / 8), k) = if c.Painted _ then _ else _ :=
    congrArg Prod.fst ((haff _).1 hvisited)
  rw [if_pos hpaint, hcolOf, (rowOf_ptr hb80).1] at hafter
  have hchanged : bits (c.vgaDrawMouse (filled val) fun _ => 0).1.vram
      (c.ptr row ((c.x + col) / 8), k) ≠
        bits (filled val).vram (c.ptr row ((c.x + col) / 8), k) := by
    rw [hafter]
    intro hsame
    have hbit : (!c.isBlack row col) = val.getLsbD k := congrFun hsame 0
    rw [hval] at hbit
    exact Bool.not_ne_self _ hbit
  obtain ⟨hon, -, hinside, -⟩ := (h (filled val) (fun _ => 0) hrest).1 _ (hk' ▸ hk) hchanged
  refine hoff ?_
  unfold Inside at hinside hcol
  have hwidth := c.width_mem
  unfold OnScreen pixelX pixelY ptr at *
  dsimp only at hon hinside
  omega

/-- A cursor whose left column is to the left of the screen -/
def atLeftEdge : CursorAt where
  x := -1
  y := 100
  width := 16
  height := 16
  black _ := 0xFFFF0000
  white _ := 0
  width_mem := by decide
  height_mem := by decide

/-- The left column is drawn at the right end of the row above. -/
theorem not_drawsAndRemoves_left : ¬ atLeftEdge.DrawsAndRemoves :=
  not_drawsAndRemoves 0 0 ⟨by decide, by decide, by decide⟩ (by decide)
    fun h => absurd h.1.1 (by decide)

/--
Removing always restores the memory. Drawing stays on the screen if what is not cut off at the
right is on it.
-/
theorem drawsAndRemoves_iff (c : CursorAt) : c.DrawsAndRemoves ↔
    ∀ row col, c.Shows row col → c.x + col < 640 → OnScreen (c.x + col) (c.y + row) :=
  ⟨fun h _ _ hshows hlt => by_contra fun hoff => not_drawsAndRemoves _ _ hshows hlt hoff h,
    drawsAndRemoves_of_onScreen⟩

end CursorAt

end Nolrem.Vga
