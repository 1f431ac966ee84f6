import Mathlib.Data.Int.LeastGreatest
import Nolrem.Vga.Dither
import Nolrem.Vga.Planes

/-!
# Filling a rectangle

`kernel/CLIPDRAW/driver/vga16/rect.c`: `VgaPutSolidRect`, `VgaPutBrushRect` and what they call.
-/

namespace Nolrem.Vga

open Nolrem.Lib

/-! ## The code -/

/-- `DITHER_NONE` -/
def ditherNone : Nat := 0xFF

/-- The loop over the rows of a byte column. -/
def fillColumn (rows : List Int) (byteX : Int) (val : BitVec 8) (s : Adapter) : Adapter :=
  rows.foldl (fun s y => s.touch (80 * y + byteX) val) s

/-- The loops over the rows and over the bytes from `a` to `e - 1`. -/
def fillMiddle (rows : List Int) (a e : Int) (val : BitVec 8) (s : Adapter) : Adapter :=
  rows.foldl (fun s y => (rowsFrom a e 1).foldl (fun s b => s.touch (80 * y + b) val) s) s

def leftMask (x1 : Int) : BitVec 8 := 0xFF#8 >>> (x1 % 8).toNat

def rightMask (x2 : Int) : BitVec 8 := 0xFF#8 <<< (7 - (x2 - 1) % 8).toNat

/-- `outb(VGA_GC_INDEX, index); outb(VGA_GC_DATA, val);` -/
def outGc (index val : BitVec 8) (s : Adapter) : Adapter := (s.outb 0x3CE index).outb 0x3CF val

/-- `VgaSimpleRect`, once the rectangle is clipped. -/
def simpleClipped (x1 y1 x2 y2 : Int) (color : BitVec 8) (s : Adapter) : Adapter :=
  let startByte := x1 / 8
  let endByte := (x2 - 1) / 8
  let rows := rowsFrom y1 y2 1
  let s := outGc 5 2 s
  let color := color &&& 0x0F
  let s :=
    if startByte = endByte then
      fillColumn rows startByte color (outGc 8 (leftMask x1 &&& rightMask x2) s)
    else
      let s := fillColumn rows startByte color (outGc 8 (leftMask x1) s)
      let s :=
        if startByte + 1 < endByte then
          fillMiddle rows (startByte + 1) endByte color (outGc 8 0xFF s)
        else s
      fillColumn rows endByte color (outGc 8 (rightMask x2) s)
  outGc 8 0xFF s

/-- Where to go on after the checks and the clipping that the functions have in common. -/
def clip (x1 y1 x2 y2 : Int) (draw : Int → Int → Int → Int → Adapter → Adapter) (s : Adapter) :
    Adapter :=
  if x1 ≥ 640 ∨ y1 ≥ 480 then s
  else if x1 ≥ x2 then s
  else if y1 ≥ y2 then s
  else
    draw (if x1 < 0 then 0 else x1) (if y1 < 0 then 0 else y1) (if x2 > 640 then 640 else x2)
      (if y2 > 480 then 480 else y2) s

/-- `VgaSimpleRect` -/
def vgaSimpleRect (x1 y1 x2 y2 : Int) (color : BitVec 8) (s : Adapter) : Adapter :=
  clip x1 y1 x2 y2 (fun x1 y1 x2 y2 => simpleClipped x1 y1 x2 y2 color) s

/-- The columns of a row of the tile that have the colour. -/
def ditherMask (row : Nat → Nat) (colour : Nat) : BitVec 8 :=
  (List.range 8).foldl
    (fun mask c => if row c = colour then mask ||| 0x80#8 >>> c else mask) 0

/-- `VgaDitherRowPasses`: the colours of a row, with their columns. -/
def vgaDitherRowPasses (row : Nat → Nat) : List (Nat × BitVec 8) :=
  (List.range 16).filterMap fun colour =>
    if ditherMask row colour ≠ 0 then some (colour, ditherMask row colour) else none

/-- The adapter, with `current_colour` and `current_mask`. -/
structure Cached where
  adapter : Adapter
  currentColour : Int
  currentMask : Int

def Cached.setColour (st : Cached) (colour : Nat) : Cached :=
  if st.currentColour ≠ colour then
    { st with adapter := outGc 0 (BitVec.ofNat 8 colour) st.adapter, currentColour := colour }
  else st

def Cached.setMask (st : Cached) (mask : BitVec 8) : Cached :=
  if st.currentMask ≠ mask.toNat then
    { st with adapter := outGc 8 mask st.adapter, currentMask := mask.toNat }
  else st

/-- A loop with a mask, if there is anything in the mask. -/
def Cached.strip (st : Cached) (mask : BitVec 8) (loop : Adapter → Adapter) : Cached :=
  if mask ≠ 0 then { st.setMask mask with adapter := loop (st.setMask mask).adapter } else st

/-- The body of the inner loop of `VgaDrawDitherRect`. -/
def ditherPass (x1 x2 : Int) (rows : List Int) (st : Cached) (pass : Nat × BitVec 8) : Cached :=
  let startByte := x1 / 8
  let endByte := (x2 - 1) / 8
  let singleByte := decide (startByte = endByte)
  let hasMiddle := !singleByte && decide (startByte + 1 < endByte)
  let edgeMask := if singleByte then leftMask x1 &&& rightMask x2 &&& pass.2 else 0
  let lm := if singleByte then 0 else leftMask x1 &&& pass.2
  let mm := if hasMiddle then pass.2 else 0
  let rm := if singleByte then 0 else rightMask x2 &&& pass.2
  if edgeMask = 0 ∧ lm = 0 ∧ mm = 0 ∧ rm = 0 then st
  else
    let st := st.setColour pass.1
    if singleByte then st.strip edgeMask (fillColumn rows startByte 0xFF)
    else
      ((st.strip lm (fillColumn rows startByte 0xFF)).strip mm
        (fillMiddle rows (startByte + 1) endByte 0xFF)).strip rm (fillColumn rows endByte 0xFF)

/-- `first_y[phase]` -/
def firstY (y1 : Int) (phase : Nat) : Int := y1 + (phase - y1 % 8 + 8) % 8

/-- The body of the outer loop of `VgaDrawDitherRect`. -/
def ditherPhase (x1 y1 x2 y2 : Int) (tile : Nat → Nat) (st : Cached) (phase : Nat) : Cached :=
  if firstY y1 phase ≥ y2 then st
  else
    (vgaDitherRowPasses fun c => tile (phase * 8 + c)).foldl
      (ditherPass x1 x2 (rowsFrom (firstY y1 phase) y2 8)) st

/-- `VgaDrawDitherRect` -/
def vgaDrawDitherRect (x1 y1 x2 y2 : Int) (tile : Nat → Nat) (s : Adapter) : Adapter :=
  let s := outGc 1 0x0F (outGc 5 0 s)
  let st := (List.range 8).foldl (ditherPhase x1 y1 x2 y2 tile) ⟨s, -1, -1⟩
  outGc 8 0xFF (outGc 1 0 (outGc 0 0 st.adapter))

/-- `VgaDitherIsUniform` -/
def vgaDitherIsUniform (tile : Nat → Nat) : Bool :=
  (List.range 63).all fun i => tile (i + 1) = tile 0

/-- `VgaDrawDitherTile` -/
def vgaDrawDitherTile (x1 y1 x2 y2 : Int) (tile : Nat → Nat) (s : Adapter) : Adapter :=
  if vgaDitherIsUniform tile then
    if tile 0 ≠ ditherNone then vgaSimpleRect x1 y1 x2 y2 (BitVec.ofNat 8 (tile 0)) s else s
  else vgaDrawDitherRect x1 y1 x2 y2 tile s

/-- `IsOpaqueColour` -/
def isOpaqueColour (argb : Nat) : Bool := argb / 16777216 % 256 = 0xFF

/-- The colours that `VgaPutSolidRect` does not dither. -/
def flatColour (colour : Nat) : Option (BitVec 8) :=
  if colour = 0xFF000000 then some 0
  else if colour = 0xFF808080 then some 8
  else if colour = 0xFFC0C0C0 then some 7
  else if colour = 0xFFFFFFFF then some 15
  else if colour = 0xFF000080 then some 4
  else if colour = 0xFF008080 then some 6
  else none

/-- `VgaPutSolidRect`, with `stale` for what the tile on the stack holds at first. -/
def vgaPutSolidRect (stale : Nat → Nat) (x1 y1 x2 y2 : Int) (colour : Nat) (s : Adapter) :
    Adapter :=
  if !isOpaqueColour colour then s
  else
    clip x1 y1 x2 y2
      (fun x1 y1 x2 y2 =>
        match flatColour colour with
        | some color => vgaSimpleRect x1 y1 x2 y2 color
        | none => vgaDrawDitherTile x1 y1 x2 y2 (getDither colour stale)) s

/-- The tile of `VgaPutBrushRect`. -/
def mergeTiles (primary secondary : Option (Nat → Nat)) (pattern : Nat → BitVec 8) (p : Nat) :
    Nat :=
  let usePrimary := (pattern (p / 8)).getLsbD (7 - p % 8)
  match if usePrimary then primary else secondary with
  | some tile => tile p
  | none => ditherNone

/-- The dither of a colour that is opaque. -/
def opaqueTile (stale : Nat → Nat) (colour : Nat) : Option (Nat → Nat) :=
  if isOpaqueColour colour then some (getDither colour stale) else none

/-- `VgaPutBrushRect` -/
def vgaPutBrushRect (stale : Nat → Nat) (x1 y1 x2 y2 : Int) (primary secondary : Nat)
    (pattern : Nat → BitVec 8) (s : Adapter) : Adapter :=
  clip x1 y1 x2 y2
    (fun x1 y1 x2 y2 =>
      if !isOpaqueColour primary && !isOpaqueColour secondary then id
      else if primary = secondary then vgaPutSolidRect stale x1 y1 x2 y2 primary
      else
        vgaDrawDitherTile x1 y1 x2 y2
          (mergeTiles (opaqueTile stale primary) (opaqueTile stale secondary) pattern)) s

/-! ## What is written -/

/-- The bits of a colour of the palette. -/
def colourBits (c : Nat) : Fin 4 → Bool := fun p => c.testBit p

/-- A write of `val` gives the pixels of the mask the colour `c`. -/
def Regs.Fills (r : Regs) (val : BitVec 8) (c : Nat) : Prop := r.Draws val fun p _ => c.testBit p

theorem outGc_regs (index val : BitVec 8) (s : Adapter) :
    (outGc index val s).regs = (s.regs.outb 0x3CE index).outb 0x3CF val := rfl

theorem outGc_vram (index val : BitVec 8) (s : Adapter) : (outGc index val s).vram = s.vram := rfl

theorem outGc_zero (val : BitVec 8) (s : Adapter) :
    (outGc 0 val s).regs = { s.regs with gcIndex := 0, setReset := val } := by
  simp [outGc_regs, Regs.outb]

theorem outGc_one (val : BitVec 8) (s : Adapter) :
    (outGc 1 val s).regs = { s.regs with gcIndex := 1, enableSetReset := val } := by
  simp [outGc_regs, Regs.outb]

theorem outGc_five (val : BitVec 8) (s : Adapter) :
    (outGc 5 val s).regs = { s.regs with gcIndex := 5, mode := val } := by
  simp [outGc_regs, Regs.outb]

theorem outGc_eight (val : BitVec 8) (s : Adapter) :
    (outGc 8 val s).regs = { s.regs with gcIndex := 8, bitMask := val } := by
  simp [outGc_regs, Regs.outb]

/-- Without a function the bits of the mask are those of the data. -/
theorem getLsbD_masked {r : Regs} (h : r.dataRotate = 0) {data latch : BitVec 8} {k : Nat}
    (hk : k < 8) :
    (r.masked data latch).getLsbD k =
      if r.bitMask.getLsbD k then data.getLsbD k else latch.getLsbD k := by
  have halu : r.alu data latch = data := by
    unfold Regs.alu
    rw [h]
    rfl
  unfold Regs.masked
  rw [halu, BitVec.getLsbD_or, BitVec.getLsbD_and, BitVec.getLsbD_and, BitVec.getLsbD_not,
    decide_eq_true hk]
  cases r.bitMask.getLsbD k <;> simp

theorem getLsbD_spread (b : Bool) {k : Nat} (hk : k < 8) : (Regs.spread b).getLsbD k = b := by
  cases b with
  | false => exact BitVec.getLsbD_zero
  | true =>
    show (BitVec.allOnes 8).getLsbD k = true
    rw [BitVec.getLsbD_allOnes, decide_eq_true hk]

/-- Write mode 2 -/
theorem draws_of_mode_two {r : Regs} (hmap : r.mapMask = 0x0F) (hrotate : r.dataRotate = 0)
    (hmode : r.mode = 2) (val : BitVec 8) : r.Draws val fun p _ => val.getLsbD p := by
  refine ⟨hmap, fun p latch k hk => ?_⟩
  have hwritten : r.written val p latch = r.masked (Regs.spread (val.getLsbD p)) latch := by
    unfold Regs.written
    rw [hmode]
    rfl
  rw [hwritten, getLsbD_masked hrotate hk, getLsbD_spread _ hk]

theorem fills_of_mode_two {r : Regs} (hmap : r.mapMask = 0x0F) (hrotate : r.dataRotate = 0)
    (hmode : r.mode = 2) (color : BitVec 8) : r.Fills (color &&& 0x0F) color.toNat := by
  have hlow (p : Fin 4) : (color &&& 0x0F).getLsbD p = color.toNat.testBit p := by
    rw [BitVec.getLsbD_and, getLsbD_planes, Bool.and_true]
    rfl
  have hdraws := draws_of_mode_two hmap hrotate hmode (color &&& 0x0F)
  simpa only [Regs.Fills, hlow] using hdraws

/-- Write mode 0, with the colour in the set/reset register -/
theorem fills_of_mode_zero {r : Regs} (hmap : r.mapMask = 0x0F) (hrotate : r.dataRotate = 0)
    (hmode : r.mode = 0) (henable : r.enableSetReset = 0x0F) {c : Nat}
    (hc : r.setReset = BitVec.ofNat 8 c) : r.Fills 0xFF c := by
  refine ⟨hmap, fun p latch k hk => ?_⟩
  have hwritten : r.written 0xFF p latch =
      r.masked (Regs.spread ((BitVec.ofNat 8 c).getLsbD p)) latch := by
    unfold Regs.written
    rw [hmode, henable, hc]
    show r.masked (if (0x0F : BitVec 8).getLsbD p then _ else _) latch = _
    rw [if_pos (getLsbD_planes p)]
  rw [hwritten, getLsbD_masked hrotate hk, getLsbD_spread _ hk, BitVec.getLsbD_ofNat,
    decide_eq_true (show (p : Nat) < 8 by omega), Bool.true_and]

/-! ## Loops -/

/-- The pixels of the mask in these bytes of these rows. -/
def InLoop (rows bytes : List Int) (mask : BitVec 8) (i : Int × Nat) : Prop :=
  ∃ y ∈ rows, ∃ b ∈ bytes, InByte (80 * y + b) mask i

section Loops

variable {s : Adapter} {rows : List Int} {val : BitVec 8} {c : Nat}

theorem fillBytes_affects (h : s.regs.Fills val c) (y : Int) (bytes : List Int) :
    (bytes.foldl (fun s b => s.touch (80 * y + b) val) s).regs = s.regs ∧
      Affects (fun _ _ => colourBits c)
        (fun i => ∃ b ∈ bytes, InByte (80 * y + b) s.regs.bitMask i) (bits s.vram)
        (bits (bytes.foldl (fun s b => s.touch (80 * y + b) val) s).vram) := by
  refine Affects.foldl (f := fun _ _ => colourBits c) (fun t : Adapter => bits t.vram)
    (fun t => t.regs = s.regs)
    (fun b i => InByte (80 * y + b) s.regs.bitMask i) (fun t b _ ht => ?_)
    (List.pairwise_of_forall fun _ _ _ _ _ _ => rfl) rfl
  obtain ⟨hregs, haff⟩ := Adapter.touch_affects (s := t) (ht ▸ h) (80 * y + b)
  rw [ht] at haff
  exact ⟨hregs.trans ht, haff⟩

theorem fillRows_affects (h : s.regs.Fills val c) (rows bytes : List Int) :
    (rows.foldl (fun s y => bytes.foldl (fun s b => s.touch (80 * y + b) val) s) s).regs =
        s.regs ∧
      Affects (fun _ _ => colourBits c) (InLoop rows bytes s.regs.bitMask) (bits s.vram)
        (bits
          (rows.foldl
            (fun s y => bytes.foldl (fun s b => s.touch (80 * y + b) val) s) s).vram) := by
  refine Affects.foldl (f := fun _ _ => colourBits c) (fun t : Adapter => bits t.vram)
    (fun t => t.regs = s.regs)
    (fun y i => ∃ b ∈ bytes, InByte (80 * y + b) s.regs.bitMask i) (fun t y _ ht => ?_)
    (List.pairwise_of_forall fun _ _ _ _ _ _ => rfl) rfl
  obtain ⟨hregs, haff⟩ := fillBytes_affects (s := t) (ht ▸ h) y bytes
  rw [ht] at haff
  exact ⟨hregs.trans ht, haff⟩

theorem fillColumn_affects (h : s.regs.Fills val c) (rows : List Int) (byteX : Int) :
    (fillColumn rows byteX val s).regs = s.regs ∧
      Affects (fun _ _ => colourBits c) (InLoop rows [byteX] s.regs.bitMask) (bits s.vram)
        (bits (fillColumn rows byteX val s).vram) :=
  fillRows_affects h rows [byteX]

theorem fillMiddle_affects (h : s.regs.Fills val c) (rows : List Int) (a e : Int) :
    (fillMiddle rows a e val s).regs = s.regs ∧
      Affects (fun _ _ => colourBits c) (InLoop rows (rowsFrom a e 1) s.regs.bitMask)
        (bits s.vram) (bits (fillMiddle rows a e val s).vram) :=
  fillRows_affects h rows (rowsFrom a e 1)

end Loops

/-! ## Bytes of a row -/

/-- The pixels of row `y` that are filled, by the bytes and the masks at both ends. -/
def InStrips (x1 x2 y : Int) (i : Int × Nat) : Prop :=
  if x1 / 8 = (x2 - 1) / 8 then InByte (80 * y + x1 / 8) (leftMask x1 &&& rightMask x2) i
  else
    InByte (80 * y + x1 / 8) (leftMask x1) i ∨
      (∃ b, (x1 / 8 < b ∧ b < (x2 - 1) / 8) ∧ InByte (80 * y + b) 0xFF i) ∨
        InByte (80 * y + (x2 - 1) / 8) (rightMask x2) i

theorem getLsbD_byte {k : Nat} : (0xFF : BitVec 8).getLsbD k = true ↔ k < 8 := by
  rw [show (0xFF : BitVec 8) = BitVec.allOnes 8 from rfl, BitVec.getLsbD_allOnes,
    decide_eq_true_iff]

theorem InStrips.lt {x1 x2 y : Int} {i : Int × Nat} (h : InStrips x1 x2 y i) : i.2 < 8 := by
  unfold InStrips at h
  split_ifs at h
  · exact BitVec.lt_of_getLsbD h.2
  · rcases h with h | ⟨b, -, h⟩ | h
    · exact BitVec.lt_of_getLsbD h.2
    · exact BitVec.lt_of_getLsbD h.2
    · exact BitVec.lt_of_getLsbD h.2

/-- On the screen these are the pixels from `x1` to `x2 - 1`. -/
theorem inStrips_iff {x1 x2 y : Int} {i : Int × Nat} (h1 : 0 ≤ x1) (h12 : x1 < x2)
    (h2 : x2 ≤ 640) :
    InStrips x1 x2 y i ↔ i.2 < 8 ∧ pixelY i = y ∧ x1 ≤ pixelX i ∧ pixelX i < x2 := by
  obtain ⟨a, k⟩ := i
  unfold InStrips InByte leftMask rightMask pixelX pixelY
  dsimp only
  split_ifs with hbyte
  · rw [BitVec.getLsbD_and, Bool.and_eq_true, getLsbD_left, getLsbD_right]
    omega
  · rw [getLsbD_left, getLsbD_right, getLsbD_byte]
    constructor
    · rintro (⟨ha, hk, hx⟩ | ⟨b, hb, ha, hk⟩ | ⟨ha, hk, hx⟩)
      · omega
      · omega
      · omega
    · rintro ⟨hk, hy, hx⟩
      rcases Int.lt_trichotomy (a % 80) (x1 / 8) with hb | hb | hb
      · omega
      · exact Or.inl ⟨by omega, hk, by omega⟩
      · by_cases hlast : a % 80 = (x2 - 1) / 8
        · exact Or.inr (Or.inr ⟨by omega, hk, by omega⟩)
        · exact Or.inr (Or.inl ⟨a % 80, by omega, by omega, hk⟩)

section Simple

variable {s : Adapter} {x1 y1 x2 y2 : Int}

/-- The registers in which `VgaSimpleRect` writes. -/
structure ModeTwo (r : Regs) : Prop where
  mapMask : r.mapMask = 0x0F
  dataRotate : r.dataRotate = 0
  mode : r.mode = 2

theorem ModeTwo.mask (h : ModeTwo s.regs) (mask : BitVec 8) : ModeTwo (outGc 8 mask s).regs := by
  rw [outGc_eight]
  exact ⟨h.mapMask, h.dataRotate, h.mode⟩

theorem Regs.Resting.modeTwo (h : s.regs.Resting) : ModeTwo (outGc 5 2 s).regs := by
  rw [outGc_five]
  exact ⟨h.mapMask, h.dataRotate, rfl⟩

theorem ModeTwo.resting {r : Regs} (h : ModeTwo r) : r.Resting :=
  ⟨h.mapMask, h.dataRotate, Or.inr h.mode⟩

theorem ModeTwo.fills {r : Regs} (h : ModeTwo r) (color : BitVec 8) :
    r.Fills (color &&& 0x0F) color.toNat :=
  fills_of_mode_two h.mapMask h.dataRotate h.mode color

theorem ModeTwo.column (h : ModeTwo s.regs) (rows : List Int) (byteX : Int)
    (mask color : BitVec 8) :
    ModeTwo (fillColumn rows byteX (color &&& 0x0F) (outGc 8 mask s)).regs ∧
      Affects (fun _ _ => colourBits color.toNat) (InLoop rows [byteX] mask) (bits s.vram)
        (bits (fillColumn rows byteX (color &&& 0x0F) (outGc 8 mask s)).vram) := by
  obtain ⟨hregs, haff⟩ := fillColumn_affects ((h.mask mask).fills color) rows byteX
  rw [outGc_eight] at haff
  exact ⟨hregs ▸ h.mask mask, haff⟩

theorem ModeTwo.middle (h : ModeTwo s.regs) (rows : List Int) (a e : Int)
    (mask color : BitVec 8) :
    ModeTwo (fillMiddle rows a e (color &&& 0x0F) (outGc 8 mask s)).regs ∧
      Affects (fun _ _ => colourBits color.toNat) (InLoop rows (rowsFrom a e 1) mask)
        (bits s.vram) (bits (fillMiddle rows a e (color &&& 0x0F) (outGc 8 mask s)).vram) := by
  obtain ⟨hregs, haff⟩ := fillMiddle_affects ((h.mask mask).fills color) rows a e
  rw [outGc_eight] at haff
  exact ⟨hregs ▸ h.mask mask, haff⟩

theorem mem_rowsFrom_one {y1 y2 y : Int} : y ∈ rowsFrom y1 y2 1 ↔ y1 ≤ y ∧ y < y2 := by
  rw [mem_rowsFrom Nat.one_pos]
  simp

/-- The three loops together, or the one of a single byte. -/
theorem inStrips_loops {rows : List Int} {i : Int × Nat} :
    (∃ y ∈ rows, InStrips x1 x2 y i) ↔
      if x1 / 8 = (x2 - 1) / 8 then InLoop rows [x1 / 8] (leftMask x1 &&& rightMask x2) i
      else
        (InLoop rows [x1 / 8] (leftMask x1) i ∨
          InLoop rows (rowsFrom (x1 / 8 + 1) ((x2 - 1) / 8) 1) 0xFF i) ∨
            InLoop rows [(x2 - 1) / 8] (rightMask x2) i := by
  unfold InStrips InLoop
  simp only [List.mem_singleton, exists_eq_left, mem_rowsFrom_one, Int.add_one_le_iff]
  split_ifs
  · rfl
  · constructor
    · rintro ⟨y, hy, h | h | h⟩
      · exact Or.inl (Or.inl ⟨y, hy, h⟩)
      · exact Or.inl (Or.inr ⟨y, hy, h⟩)
      · exact Or.inr ⟨y, hy, h⟩
    · rintro ((⟨y, hy, h⟩ | ⟨y, hy, h⟩) | ⟨y, hy, h⟩)
      · exact ⟨y, hy, Or.inl h⟩
      · exact ⟨y, hy, Or.inr (Or.inl h)⟩
      · exact ⟨y, hy, Or.inr (Or.inr h)⟩

/-- `VgaSimpleRect`, wherever the bytes are. -/
theorem simpleClipped_affects (x1 y1 x2 y2 : Int) (h : s.regs.Resting) (color : BitVec 8) :
    (simpleClipped x1 y1 x2 y2 color s).regs.Resting ∧
      Affects (fun _ _ => colourBits color.toNat)
        (fun i => ∃ y ∈ rowsFrom y1 y2 1, InStrips x1 x2 y i) (bits s.vram)
        (bits (simpleClipped x1 y1 x2 y2 color s).vram) := by
  have htwo := h.modeTwo
  have htwice (P Q : Int × Nat → Prop) : ∀ i, P i → Q i → ∀ v : Fin 4 → Bool,
      (fun (_ : Int × Nat) (_ : Fin 4 → Bool) => colourBits color.toNat) i
        ((fun (_ : Int × Nat) (_ : Fin 4 → Bool) => colourBits color.toNat) i v) =
          colourBits color.toNat := fun _ _ _ _ => rfl
  unfold simpleClipped
  dsimp only
  by_cases hbyte : x1 / 8 = (x2 - 1) / 8
  · rw [if_pos hbyte]
    obtain ⟨hregs, haff⟩ := htwo.column (rowsFrom y1 y2 1) (x1 / 8) (leftMask x1 &&& rightMask x2)
      color
    refine ⟨(hregs.mask 0xFF).resting, haff.congr fun i => ?_⟩
    rw [inStrips_loops, if_pos hbyte]
  · rw [if_neg hbyte]
    obtain ⟨hregs, haff⟩ := htwo.column (rowsFrom y1 y2 1) (x1 / 8) (leftMask x1) color
    generalize fillColumn (rowsFrom y1 y2 1) (x1 / 8) (color &&& 0x0F)
      (outGc 8 (leftMask x1) (outGc 5 2 s)) = t at hregs haff
    -- without bytes between the ends the loop does nothing
    obtain ⟨hregs', haff'⟩ : ModeTwo
        (if x1 / 8 + 1 < (x2 - 1) / 8 then
          fillMiddle (rowsFrom y1 y2 1) (x1 / 8 + 1) ((x2 - 1) / 8) (color &&& 0x0F)
            (outGc 8 0xFF t)
        else t).regs ∧
        Affects (fun _ _ => colourBits color.toNat)
          (InLoop (rowsFrom y1 y2 1) (rowsFrom (x1 / 8 + 1) ((x2 - 1) / 8) 1) 0xFF) (bits t.vram)
          (bits
            (if x1 / 8 + 1 < (x2 - 1) / 8 then
              fillMiddle (rowsFrom y1 y2 1) (x1 / 8 + 1) ((x2 - 1) / 8) (color &&& 0x0F)
                (outGc 8 0xFF t)
            else t).vram) := by
      split_ifs with hmiddle
      · exact hregs.middle _ _ _ _ color
      · refine ⟨hregs, Affects.refl ?_⟩
        rintro i ⟨y, -, b, hb, -⟩
        rw [mem_rowsFrom_one] at hb
        omega
    obtain ⟨hregs'', haff''⟩ := hregs'.column (rowsFrom y1 y2 1) ((x2 - 1) / 8) (rightMask x2) color
    refine ⟨(hregs''.mask 0xFF).resting, ((haff.comp haff' (htwice _ _)).comp haff'' (htwice _ _)).congr
      fun i => ?_⟩
    rw [inStrips_loops, if_neg hbyte]

end Simple

/-! ## Passes -/

theorem getLsbD_ditherMask {row : Nat → Nat} {colour k : Nat} :
    (ditherMask row colour).getLsbD k = true ↔ k < 8 ∧ row (7 - k) = colour := by
  unfold ditherMask
  rw [getLsbD_foldl_top fun c hc => List.mem_range.mp hc]
  simp only [List.mem_range]
  constructor
  · rintro (h | ⟨c, hc, hrow, rfl⟩)
    · simp at h
    · rw [show 7 - (7 - c) = c by omega]
      exact ⟨by omega, hrow⟩
  · rintro ⟨hk, hrow⟩
    exact Or.inr ⟨7 - k, by omega, hrow, by omega⟩

/-- The passes of a row draw the colours of its columns, each in its place. -/
theorem mem_vgaDitherRowPasses (row : Nat → Nat) {k c : Nat} :
    (∃ pass ∈ vgaDitherRowPasses row, pass.2.getLsbD k = true ∧ pass.1 = c) ↔
      k < 8 ∧ c < 16 ∧ row (7 - k) = c := by
  unfold vgaDitherRowPasses
  simp only [List.mem_filterMap, List.mem_range]
  constructor
  · rintro ⟨pass, ⟨colour, hlt, hpass⟩, hbit, rfl⟩
    split_ifs at hpass with hmask
    obtain rfl := Option.some.inj hpass
    obtain ⟨hk, hrow⟩ := getLsbD_ditherMask.mp hbit
    exact ⟨hk, hlt, hrow⟩
  · rintro ⟨hk, hc, hrow⟩
    have hbit := getLsbD_ditherMask.mpr ⟨hk, hrow⟩
    refine ⟨(c, ditherMask row c), ⟨c, hc, if_pos fun hzero => ?_⟩, hbit, rfl⟩
    rw [hzero] at hbit
    simp at hbit

/-- The registers in which `VgaDrawDitherRect` writes, and what is known to be in them. -/
structure Cached.Ready (st : Cached) : Prop where
  mapMask : st.adapter.regs.mapMask = 0x0F
  dataRotate : st.adapter.regs.dataRotate = 0
  mode : st.adapter.regs.mode = 0
  enableSetReset : st.adapter.regs.enableSetReset = 0x0F
  colour : ∀ c : Nat, st.currentColour = c → st.adapter.regs.setReset = BitVec.ofNat 8 c
  mask : ∀ m : BitVec 8, st.currentMask = m.toNat → st.adapter.regs.bitMask = m

section Passes

variable {st : Cached} {c : Nat}

theorem Cached.Ready.setColour (h : st.Ready) (c : Nat) :
    (st.setColour c).Ready ∧ (st.setColour c).currentColour = c ∧
      (st.setColour c).adapter.vram = st.adapter.vram := by
  unfold Cached.setColour
  split_ifs with hc
  · refine ⟨⟨?_, ?_, ?_, ?_, ?_, ?_⟩, rfl, rfl⟩ <;> dsimp only <;> rw [outGc_zero]
    · exact h.mapMask
    · exact h.dataRotate
    · exact h.mode
    · exact h.enableSetReset
    · intro d hd
      rw [Int.natCast_inj.mp hd]
    · exact h.mask
  · exact ⟨h, not_not.mp hc, rfl⟩

theorem Cached.Ready.setMask (h : st.Ready) (mask : BitVec 8) :
    (st.setMask mask).Ready ∧ (st.setMask mask).adapter.regs.bitMask = mask ∧
      (st.setMask mask).currentColour = st.currentColour ∧
        (st.setMask mask).adapter.vram = st.adapter.vram := by
  unfold Cached.setMask
  split_ifs with hmask
  · refine ⟨⟨?_, ?_, ?_, ?_, ?_, ?_⟩, ?_, rfl, rfl⟩ <;> dsimp only <;> rw [outGc_eight]
    · exact h.mapMask
    · exact h.dataRotate
    · exact h.mode
    · exact h.enableSetReset
    · exact h.colour
    · intro m hm
      exact BitVec.eq_of_toNat_eq (Int.natCast_inj.mp hm)
  · exact ⟨h, h.mask mask (not_not.mp hmask), rfl, rfl⟩

/-- A loop with a mask fills its bytes. -/
theorem Cached.Ready.strip (h : st.Ready) (hc : st.currentColour = c) (mask : BitVec 8)
    {loop : Adapter → Adapter} {rows bytes : List Int}
    (hloop : ∀ s : Adapter, s.regs.Fills 0xFF c → (loop s).regs = s.regs ∧
      Affects (fun _ _ => colourBits c) (InLoop rows bytes s.regs.bitMask) (bits s.vram)
        (bits (loop s).vram)) :
    (st.strip mask loop).Ready ∧ (st.strip mask loop).currentColour = c ∧
      Affects (fun _ _ => colourBits c) (InLoop rows bytes mask) (bits st.adapter.vram)
        (bits (st.strip mask loop).adapter.vram) := by
  unfold Cached.strip
  split_ifs with hmask
  · obtain ⟨hready, hbit, hcolour, hvram⟩ := h.setMask mask
    rw [hc] at hcolour
    obtain ⟨hregs, haff⟩ := hloop (st.setMask mask).adapter
      (fills_of_mode_zero hready.mapMask hready.dataRotate hready.mode hready.enableSetReset
        (hready.colour c hcolour))
    rw [hbit, hvram] at haff
    refine ⟨⟨?_, ?_, ?_, ?_, ?_, ?_⟩, hcolour, haff⟩ <;> dsimp only <;> rw [hregs]
    · exact hready.mapMask
    · exact hready.dataRotate
    · exact hready.mode
    · exact hready.enableSetReset
    · exact hready.colour
    · exact hready.mask
  · refine ⟨h, hc, Affects.refl ?_⟩
    rintro i ⟨y, -, b, -, hi⟩
    have hbit := hi.2
    rw [not_not.mp hmask] at hbit
    simp at hbit

theorem inLoop_and {rows bytes : List Int} {m n : BitVec 8} {i : Int × Nat} :
    InLoop rows bytes (m &&& n) i ↔ InLoop rows bytes m i ∧ n.getLsbD i.2 = true := by
  unfold InLoop InByte
  simp only [BitVec.getLsbD_and, Bool.and_eq_true]
  constructor
  · rintro ⟨y, hy, b, hb, ha, hm, hn⟩
    exact ⟨⟨y, hy, b, hb, ha, hm⟩, hn⟩
  · rintro ⟨⟨y, hy, b, hb, ha, hm⟩, hn⟩
    exact ⟨y, hy, b, hb, ha, hm, hn⟩

theorem inLoop_zero {rows bytes : List Int} {i : Int × Nat} : ¬ InLoop rows bytes 0 i := by
  rintro ⟨y, -, b, -, -, hbit⟩
  simp at hbit

/-- A pass draws its columns in the rows. -/
theorem ditherPass_affects (h : st.Ready) (x1 x2 : Int) (rows : List Int)
    (pass : Nat × BitVec 8) :
    (ditherPass x1 x2 rows st pass).Ready ∧
      Affects (fun _ _ => colourBits pass.1)
        (fun i => (∃ y ∈ rows, InStrips x1 x2 y i) ∧ pass.2.getLsbD i.2 = true)
        (bits st.adapter.vram) (bits (ditherPass x1 x2 rows st pass).adapter.vram) := by
  obtain ⟨hready, hcolour, hvram⟩ := h.setColour pass.1
  unfold ditherPass
  dsimp only
  by_cases hbyte : x1 / 8 = (x2 - 1) / 8
  · simp only [hbyte, decide_true, Bool.not_true, Bool.false_and, Bool.false_eq_true, if_true,
      if_false, and_true]
    have hset (i : Int × Nat) :
        InLoop rows [(x2 - 1) / 8] (leftMask x1 &&& rightMask x2 &&& pass.2) i ↔
          (∃ y ∈ rows, InStrips x1 x2 y i) ∧ pass.2.getLsbD i.2 = true := by
      rw [inLoop_and, inStrips_loops, if_pos hbyte, hbyte]
    split_ifs with hzero
    · refine ⟨h, (Affects.refl fun i hi => ?_).congr hset⟩
      rw [hzero] at hi
      exact inLoop_zero hi
    · obtain ⟨hready', -, haff⟩ := hready.strip hcolour
        (leftMask x1 &&& rightMask x2 &&& pass.2)
        fun s hs => fillColumn_affects hs rows ((x2 - 1) / 8)
      rw [hvram] at haff
      exact ⟨hready', haff.congr hset⟩
  · have hmiddle (i : Int × Nat) :
        InLoop rows (rowsFrom (x1 / 8 + 1) ((x2 - 1) / 8) 1)
            (if x1 / 8 + 1 < (x2 - 1) / 8 then pass.2 else 0) i ↔
          InLoop rows (rowsFrom (x1 / 8 + 1) ((x2 - 1) / 8) 1) 0xFF i ∧
            pass.2.getLsbD i.2 = true := by
      split_ifs with hlt
      · have hall : 0xFF &&& pass.2 = pass.2 := BitVec.allOnes_and
        rw [← inLoop_and, hall]
      · refine iff_of_false inLoop_zero fun hi => ?_
        obtain ⟨y, -, b, hb, -⟩ := hi.1
        rw [mem_rowsFrom_one] at hb
        omega
    simp only [hbyte, decide_false, Bool.not_false, Bool.true_and, Bool.false_eq_true, if_false,
      decide_eq_true_eq, true_and]
    generalize (if x1 / 8 + 1 < (x2 - 1) / 8 then pass.2 else 0) = mm at hmiddle
    have hset (i : Int × Nat) :
        (InLoop rows [x1 / 8] (leftMask x1 &&& pass.2) i ∨
          InLoop rows (rowsFrom (x1 / 8 + 1) ((x2 - 1) / 8) 1) mm i) ∨
          InLoop rows [(x2 - 1) / 8] (rightMask x2 &&& pass.2) i ↔
            (∃ y ∈ rows, InStrips x1 x2 y i) ∧ pass.2.getLsbD i.2 = true := by
      rw [inLoop_and, hmiddle, inLoop_and, inStrips_loops, if_neg hbyte, or_and_right,
        or_and_right]
    split_ifs with hzero
    · obtain ⟨hl, hm, hr⟩ := hzero
      refine ⟨h, (Affects.refl fun i hi => ?_).congr hset⟩
      rw [hl, hm, hr] at hi
      exact hi.elim (fun hi => hi.elim inLoop_zero inLoop_zero) inLoop_zero
    · obtain ⟨hready1, hcolour1, haff1⟩ := hready.strip hcolour (leftMask x1 &&& pass.2)
        fun s hs => fillColumn_affects hs rows (x1 / 8)
      obtain ⟨hready2, hcolour2, haff2⟩ := hready1.strip hcolour1 mm
        fun s hs => fillMiddle_affects hs rows (x1 / 8 + 1) ((x2 - 1) / 8)
      obtain ⟨hready3, -, haff3⟩ := hready2.strip hcolour2 (rightMask x2 &&& pass.2)
        fun s hs => fillColumn_affects hs rows ((x2 - 1) / 8)
      rw [hvram] at haff1
      exact ⟨hready3, ((haff1.comp haff2 fun _ _ _ _ => rfl).comp haff3
        fun _ _ _ _ => rfl).congr hset⟩

end Passes

/-! ## Phases -/

/-- The place in the tile of a pixel that is written with row `y`. -/
def cell (y : Int) (i : Int × Nat) : Nat := (y % 8).toNat * 8 + (7 - i.2)

section Phases

variable {κ : Type} {loc : κ → Int × Nat} {target : κ → Nat} {st : Cached} {tile : Nat → Nat}
  {x1 y1 x2 y2 : Int}

theorem mem_phaseRows8 {phase : Nat} (hphase : phase < 8) {y : Int} :
    y ∈ rowsFrom (firstY y1 phase) y2 8 ↔ (y1 ≤ y ∧ y < y2) ∧ (y % 8).toNat = phase := by
  rw [mem_rowsFrom (by decide)]
  unfold firstY
  omega

/-- A phase draws the pixels of its rows, if they get the colours that are wanted. -/
theorem ditherPhase_affects (h : st.Ready) {phase : Nat} (hphase : phase < 8)
    (htarget : ∀ j y, y1 ≤ y ∧ y < y2 → InStrips x1 x2 y (loc j) → tile (cell y (loc j)) < 16 →
      target j = tile (cell y (loc j))) :
    (ditherPhase x1 y1 x2 y2 tile st phase).Ready ∧
      Affects (fun j _ => colourBits (target j))
        (fun j => ∃ y, ((y1 ≤ y ∧ y < y2) ∧ (y % 8).toNat = phase) ∧ InStrips x1 x2 y (loc j) ∧
          tile (cell y (loc j)) < 16)
        (fun j => bits st.adapter.vram (loc j))
        fun j => bits (ditherPhase x1 y1 x2 y2 tile st phase).adapter.vram (loc j) := by
  unfold ditherPhase
  split_ifs with hnone
  · refine ⟨h, Affects.refl ?_⟩
    rintro j ⟨y, hy, -⟩
    unfold firstY at hnone
    omega
  have hrow {y : Int} (hy : (y % 8).toNat = phase) (i : Int × Nat) :
      cell y i = phase * 8 + (7 - i.2) := by
    unfold cell
    rw [hy]
  have hstep (st : Cached) (pass : Nat × BitVec 8)
      (hpass : pass ∈ vgaDitherRowPasses fun c => tile (phase * 8 + c)) (hst : st.Ready) :
      (ditherPass x1 x2 (rowsFrom (firstY y1 phase) y2 8) st pass).Ready ∧
        Affects (fun j _ => colourBits (target j))
          (fun j => (∃ y ∈ rowsFrom (firstY y1 phase) y2 8, InStrips x1 x2 y (loc j)) ∧
            pass.2.getLsbD (loc j).2 = true)
          (fun j => bits st.adapter.vram (loc j))
          fun j => bits (ditherPass x1 x2 (rowsFrom (firstY y1 phase) y2 8) st pass).adapter.vram
            (loc j) := by
    obtain ⟨hready, haff⟩ := ditherPass_affects hst x1 x2 (rowsFrom (firstY y1 phase) y2 8) pass
    refine ⟨hready, (haff.comap loc).congr_fun ?_⟩
    rintro j ⟨⟨y, hy, hstrip⟩, hbit⟩ v
    obtain ⟨-, hlt, hcol⟩ := (mem_vgaDitherRowPasses _).mp ⟨pass, hpass, hbit, rfl⟩
    rw [mem_phaseRows8 hphase] at hy
    have hcell := hrow hy.2 (loc j)
    rw [htarget j y hy.1 hstrip (by rw [hcell, hcol]; exact hlt), hcell, hcol]
  obtain ⟨hready, haff⟩ := Affects.foldl (fun (st : Cached) j => bits st.adapter.vram (loc j))
    (fun st => st.Ready) _ hstep (List.pairwise_of_forall fun _ _ _ _ _ _ => rfl) h
  refine ⟨hready, haff.congr fun j => ?_⟩
  constructor
  · rintro ⟨pass, hpass, ⟨y, hy, hstrip⟩, hbit⟩
    obtain ⟨-, hlt, hcol⟩ := (mem_vgaDitherRowPasses _).mp ⟨pass, hpass, hbit, rfl⟩
    rw [mem_phaseRows8 hphase] at hy
    refine ⟨y, hy, hstrip, ?_⟩
    rw [hrow hy.2, hcol]
    exact hlt
  · rintro ⟨y, hy, hstrip, hlt⟩
    rw [hrow hy.2] at hlt
    obtain ⟨pass, hpass, hbit, -⟩ := (mem_vgaDitherRowPasses fun c => tile (phase * 8 + c)).mpr
      ⟨hstrip.lt, hlt, rfl⟩
    exact ⟨pass, hpass, ⟨y, (mem_phaseRows8 hphase).mpr hy, hstrip⟩, hbit⟩

/-- All phases together draw the pixels of all rows. -/
theorem ditherPhases_affects (h : st.Ready)
    (htarget : ∀ j y, y1 ≤ y ∧ y < y2 → InStrips x1 x2 y (loc j) → tile (cell y (loc j)) < 16 →
      target j = tile (cell y (loc j))) :
    ((List.range 8).foldl (ditherPhase x1 y1 x2 y2 tile) st).Ready ∧
      Affects (fun j _ => colourBits (target j))
        (fun j => ∃ y, (y1 ≤ y ∧ y < y2) ∧ InStrips x1 x2 y (loc j) ∧ tile (cell y (loc j)) < 16)
        (fun j => bits st.adapter.vram (loc j))
        fun j => bits ((List.range 8).foldl (ditherPhase x1 y1 x2 y2 tile) st).adapter.vram
          (loc j) := by
  obtain ⟨hready, haff⟩ := Affects.foldl (l := List.range 8)
    (fun (st : Cached) j => bits st.adapter.vram (loc j)) (fun st => st.Ready) _
    (fun st phase hphase hst => ditherPhase_affects hst (List.mem_range.mp hphase) htarget)
    (List.pairwise_of_forall fun _ _ _ _ _ _ => rfl) h
  refine ⟨hready, haff.congr fun j => ?_⟩
  constructor
  · rintro ⟨phase, -, y, ⟨hy, -⟩, hstrip, hlt⟩
    exact ⟨y, hy, hstrip, hlt⟩
  · rintro ⟨y, hy, hstrip, hlt⟩
    exact ⟨(y % 8).toNat, List.mem_range.mpr (by omega), y, ⟨hy, rfl⟩, hstrip, hlt⟩

/-- `VgaDrawDitherRect`, wherever the bytes are. -/
theorem vgaDrawDitherRect_affects {s : Adapter} (loc : κ → Int × Nat) (target : κ → Nat)
    (h : s.regs.Resting)
    (htarget : ∀ j y, y1 ≤ y ∧ y < y2 → InStrips x1 x2 y (loc j) → tile (cell y (loc j)) < 16 →
      target j = tile (cell y (loc j))) :
    (vgaDrawDitherRect x1 y1 x2 y2 tile s).regs.Resting ∧
      Affects (fun j _ => colourBits (target j))
        (fun j => ∃ y, (y1 ≤ y ∧ y < y2) ∧ InStrips x1 x2 y (loc j) ∧ tile (cell y (loc j)) < 16)
        (fun j => bits s.vram (loc j))
        fun j => bits (vgaDrawDitherRect x1 y1 x2 y2 tile s).vram (loc j) := by
  have hstart : Cached.Ready ⟨outGc 1 0x0F (outGc 5 0 s), -1, -1⟩ := by
    constructor
    case colour =>
      intro c hc
      have hneg : (-1 : Int) = c := hc
      omega
    case mask =>
      intro m hm
      have hneg : (-1 : Int) = m.toNat := hm
      omega
    all_goals
      dsimp only
      rw [outGc_one, outGc_five]
    · exact h.mapMask
    · exact h.dataRotate
  obtain ⟨hready, haff⟩ := ditherPhases_affects hstart htarget
  unfold vgaDrawDitherRect
  dsimp only
  generalize (List.range 8).foldl (ditherPhase x1 y1 x2 y2 tile)
    ⟨outGc 1 0x0F (outGc 5 0 s), -1, -1⟩ = st at hready haff
  refine ⟨?_, haff⟩
  rw [outGc_eight, outGc_one, outGc_zero]
  exact ⟨hready.mapMask, hready.dataRotate, Or.inl hready.mode⟩

/-- The same for all places, each with its own colour. -/
theorem vgaDrawDitherRect_affects_all {s : Adapter} (target : Int × Nat → Nat)
    (h : s.regs.Resting)
    (htarget : ∀ i y, y1 ≤ y ∧ y < y2 → InStrips x1 x2 y i → tile (cell y i) < 16 →
      target i = tile (cell y i)) :
    (vgaDrawDitherRect x1 y1 x2 y2 tile s).regs.Resting ∧
      Affects (fun i _ => colourBits (target i))
        (fun i => ∃ y, (y1 ≤ y ∧ y < y2) ∧ InStrips x1 x2 y i ∧ tile (cell y i) < 16)
        (bits s.vram) (bits (vgaDrawDitherRect x1 y1 x2 y2 tile s).vram) :=
  vgaDrawDitherRect_affects id target h htarget

end Phases

/-! ## Rectangles -/

/-- What the tile has at a point. -/
def tileAt (tile : Nat → Nat) (x y : Int) : Nat := tile ((y % 8).toNat * 8 + (x % 8).toNat)

/-- The pixel at the place is in the rectangle, and the tile has a colour there. -/
def Painted (tile : Nat → Nat) (x1 y1 x2 y2 : Int) (i : Int × Nat) : Prop :=
  i.2 < 8 ∧ OnScreen (pixelX i) (pixelY i) ∧ InRect x1 y1 x2 y2 (pixelX i) (pixelY i) ∧
    tileAt tile (pixelX i) (pixelY i) ≠ ditherNone

/-- The colours of the palette, and `DITHER_NONE` -/
def TileOk (tile : Nat → Nat) : Prop := ∀ p < 64, tile p < 16 ∨ tile p = ditherNone

/-- What filling a rectangle with a tile does. -/
structure FillsExactly (tile : Nat → Nat) (x1 y1 x2 y2 : Int) (draw : Adapter → Adapter) :
    Prop where
  inside : ∀ s : Adapter, s.regs.Resting → ∀ x y, OnScreen x y → InRect x1 y1 x2 y2 x y →
    tileAt tile x y ≠ ditherNone → pixel (draw s).vram x y = colourBits (tileAt tile x y)
  outside : ∀ s : Adapter, s.regs.Resting → ∀ x y, OnScreen x y →
    ¬ (InRect x1 y1 x2 y2 x y ∧ tileAt tile x y ≠ ditherNone) →
      pixel (draw s).vram x y = pixel s.vram x y
  /-- The screen has 38400 bytes. -/
  others : ∀ s : Adapter, s.regs.Resting → ∀ a, ¬ (0 ≤ a ∧ a < 38400) →
    (draw s).vram a = s.vram a

/-- `draw` leaves nothing else behind than a filled rectangle. -/
def Fills (tile : Nat → Nat) (x1 y1 x2 y2 : Int) (draw : Adapter → Adapter) : Prop :=
  ∀ s : Adapter, s.regs.Resting → (draw s).regs.Resting ∧
    Affects (fun i _ => colourBits (tileAt tile (pixelX i) (pixelY i)))
      (Painted tile x1 y1 x2 y2) (bits s.vram) (bits (draw s).vram)

section Rects

variable {tile : Nat → Nat} {x1 y1 x2 y2 : Int} {draw : Adapter → Adapter}

theorem Fills.exactly (h : Fills tile x1 y1 x2 y2 draw) : FillsExactly tile x1 y1 x2 y2 draw := by
  have hmem {x y : Int} (hon : OnScreen x y) : Painted tile x1 y1 x2 y2 (place x y) ↔
      InRect x1 y1 x2 y2 x y ∧ tileAt tile x y ≠ ditherNone := by
    obtain ⟨hk, hx, hy⟩ := pixel_place hon
    unfold Painted
    rw [hx, hy]
    exact ⟨fun hi => hi.2.2, fun hi => ⟨hk, hon, hi⟩⟩
  refine ⟨fun s hs x y hon hin htile => ?_, fun s hs x y hon hout => ?_, fun s hs a ha => ?_⟩
  · have hpixel := ((h s hs).2 (place x y)).1 ((hmem hon).mpr ⟨hin, htile⟩)
    obtain ⟨-, hx, hy⟩ := pixel_place hon
    dsimp only at hpixel
    rw [hx, hy] at hpixel
    exact hpixel
  · exact ((h s hs).2 (place x y)).2 fun hi => hout ((hmem hon).mp hi)
  · funext p
    refine BitVec.eq_of_getLsbD_eq fun k hk => ?_
    refine congrFun (((h s hs).2 (a, k)).2 fun hi => ha ?_) p
    exact (onScreen_pixel_iff hk).mp hi.2.1

theorem cell_lt {y : Int} {i : Int × Nat} : cell y i < 64 := by
  unfold cell
  omega

theorem cell_eq (tile : Nat → Nat) {i : Int × Nat} (hk : i.2 < 8) :
    tile (cell (pixelY i) i) = tileAt tile (pixelX i) (pixelY i) := by
  unfold cell tileAt pixelX
  congr 1
  omega

theorem clip_of_empty {draw : Int → Int → Int → Int → Adapter → Adapter} {s : Adapter}
    (h : x1 ≥ x2 ∨ y1 ≥ y2) : clip x1 y1 x2 y2 draw s = s := by
  unfold clip
  by_cases h1 : x1 ≥ 640 ∨ y1 ≥ 480
  · rw [if_pos h1]
  rw [if_neg h1]
  by_cases h2 : x1 ≥ x2
  · rw [if_pos h2]
  · rw [if_neg h2, if_pos (h.resolve_left h2)]

theorem clip_of_inside {draw : Int → Int → Int → Int → Adapter → Adapter} {s : Adapter}
    (hx : 0 ≤ x1 ∧ x1 < x2 ∧ x2 ≤ 640) (hy : 0 ≤ y1 ∧ y1 < y2 ∧ y2 ≤ 480) :
    clip x1 y1 x2 y2 draw s = draw x1 y1 x2 y2 s := by
  unfold clip
  rw [if_neg (by omega), if_neg (by omega), if_neg (by omega), if_neg (by omega),
    if_neg (by omega), if_neg (by omega), if_neg (by omega)]

/-- Nothing is drawn, and nothing has to be. -/
theorem fills_id (h : ∀ i, ¬ Painted tile x1 y1 x2 y2 i) : Fills tile x1 y1 x2 y2 id :=
  fun _ hs => ⟨hs, Affects.refl h⟩

/-- A dithered rectangle that is on the screen. -/
theorem fills_ditherRect (hok : TileOk tile) (h1 : 0 ≤ x1) (h12 : x1 < x2) (h2 : x2 ≤ 640)
    (hy1 : 0 ≤ y1) (hy2 : y2 ≤ 480) :
    Fills tile x1 y1 x2 y2 (vgaDrawDitherRect x1 y1 x2 y2 tile) := by
  intro s hs
  have htarget (i : Int × Nat) (y : Int) (_ : y1 ≤ y ∧ y < y2) (hstrip : InStrips x1 x2 y i)
      (_ : tile (cell y i) < 16) : tileAt tile (pixelX i) (pixelY i) = tile (cell y i) := by
    obtain ⟨hk, rfl, -⟩ := (inStrips_iff h1 h12 h2).mp hstrip
    exact (cell_eq tile hk).symm
  obtain ⟨hrest, haff⟩ :=
    vgaDrawDitherRect_affects_all (fun i => tileAt tile (pixelX i) (pixelY i)) hs htarget
  refine ⟨hrest, haff.congr fun i => ?_⟩
  unfold Painted InRect OnScreen
  constructor
  · rintro ⟨y, hy, hstrip, hlt⟩
    obtain ⟨hk, rfl, hx⟩ := (inStrips_iff h1 h12 h2).mp hstrip
    rw [cell_eq tile hk] at hlt
    refine ⟨hk, ⟨by omega, by omega⟩, ⟨hx, hy⟩, ?_⟩
    unfold ditherNone
    omega
  · rintro ⟨hk, -, ⟨hx, hy⟩, hnone⟩
    refine ⟨pixelY i, hy, (inStrips_iff h1 h12 h2).mpr ⟨hk, rfl, hx⟩, ?_⟩
    have hcell := hok _ (cell_lt (y := pixelY i) (i := i))
    rw [cell_eq tile hk] at hcell ⊢
    exact hcell.resolve_right hnone

/-- A tile that has the same colour everywhere. -/
theorem tileAt_of_uniform (h : vgaDitherIsUniform tile = true) (x y : Int) :
    tileAt tile x y = tile 0 := by
  unfold vgaDitherIsUniform at h
  rw [List.all_eq_true] at h
  unfold tileAt
  rcases hp : (y % 8).toNat * 8 + (x % 8).toNat with _ | p
  · rfl
  · exact of_decide_eq_true (h p (List.mem_range.mpr (by omega)))

/-- A rectangle of one colour that is on the screen. -/
theorem fills_simpleRect (h : vgaDitherIsUniform tile = true) (hok : TileOk tile)
    (hnone : tile 0 ≠ ditherNone) (h1 : 0 ≤ x1) (h2 : x2 ≤ 640) (hy1 : 0 ≤ y1) (hy2 : y2 ≤ 480) :
    Fills tile x1 y1 x2 y2 (vgaSimpleRect x1 y1 x2 y2 (BitVec.ofNat 8 (tile 0))) := by
  have hempty (hno : x1 ≥ x2 ∨ y1 ≥ y2) (i : Int × Nat) : ¬ Painted tile x1 y1 x2 y2 i := by
    rintro ⟨-, -, ⟨hx, hy⟩, -⟩
    omega
  by_cases hno : x1 ≥ x2 ∨ y1 ≥ y2
  · have hid : vgaSimpleRect x1 y1 x2 y2 (BitVec.ofNat 8 (tile 0)) = id := by
      funext s
      exact clip_of_empty hno
    rw [hid]
    exact fills_id (hempty hno)
  intro s hs
  have hclip : vgaSimpleRect x1 y1 x2 y2 (BitVec.ofNat 8 (tile 0)) s =
      simpleClipped x1 y1 x2 y2 (BitVec.ofNat 8 (tile 0)) s :=
    clip_of_inside ⟨h1, by omega, h2⟩ ⟨hy1, by omega, hy2⟩
  obtain ⟨hrest, haff⟩ := simpleClipped_affects x1 y1 x2 y2 hs
    (BitVec.ofNat 8 (tile 0))
  have hcolour : (BitVec.ofNat 8 (tile 0)).toNat = tile 0 := by
    have hlt := (hok 0 (by decide)).resolve_right hnone
    rw [BitVec.toNat_ofNat, Nat.mod_eq_of_lt (by omega)]
  rw [hcolour] at haff
  rw [hclip]
  refine ⟨hrest, (haff.congr_fun fun i _ v => ?_).congr fun i => ?_⟩
  · rw [tileAt_of_uniform h]
  · unfold Painted
    rw [tileAt_of_uniform h]
    constructor
    · rintro ⟨y, hy, hstrip⟩
      obtain ⟨hk, rfl, hx⟩ := (inStrips_iff h1 (by omega) h2).mp hstrip
      rw [mem_rowsFrom_one] at hy
      exact ⟨hk, ⟨by omega, by omega⟩, ⟨hx, hy⟩, hnone⟩
    · rintro ⟨hk, -, ⟨hx, hy⟩, -⟩
      exact ⟨pixelY i, mem_rowsFrom_one.mpr hy,
        (inStrips_iff h1 (by omega) h2).mpr ⟨hk, rfl, hx⟩⟩

theorem clip_of_off {draw : Int → Int → Int → Int → Adapter → Adapter} {s : Adapter}
    (h : x1 ≥ 640 ∨ y1 ≥ 480) : clip x1 y1 x2 y2 draw s = s := if_pos h

theorem clip_of_on {draw : Int → Int → Int → Int → Adapter → Adapter} {s : Adapter}
    (hon : x1 < 640 ∧ y1 < 480) (hx : x1 < x2) (hy : y1 < y2) :
    clip x1 y1 x2 y2 draw s = draw (if x1 < 0 then 0 else x1) (if y1 < 0 then 0 else y1)
      (if x2 > 640 then 640 else x2) (if y2 > 480 then 480 else y2) s := by
  unfold clip
  rw [if_neg (by omega), if_neg (by omega), if_neg (by omega)]

/-- Clipping keeps the pixels on the screen. -/
theorem painted_clip {i : Int × Nat} :
    Painted tile (if x1 < 0 then 0 else x1) (if y1 < 0 then 0 else y1)
      (if x2 > 640 then 640 else x2) (if y2 > 480 then 480 else y2) i ↔
        Painted tile x1 y1 x2 y2 i := by
  unfold Painted InRect OnScreen
  refine and_congr_right fun _ => and_congr_right fun hscreen => and_congr_left' ?_
  omega

/-- What is drawn on the clipped coordinates, if anything. -/
theorem fills_clip {draw : Int → Int → Int → Int → Adapter → Adapter}
    (h : (x1 < 640 ∧ y1 < 480) ∧ x1 < x2 ∧ y1 < y2 →
      Fills tile (if x1 < 0 then 0 else x1) (if y1 < 0 then 0 else y1)
        (if x2 > 640 then 640 else x2) (if y2 > 480 then 480 else y2)
        (draw (if x1 < 0 then 0 else x1) (if y1 < 0 then 0 else y1)
          (if x2 > 640 then 640 else x2) (if y2 > 480 then 480 else y2))) :
    Fills tile x1 y1 x2 y2 (clip x1 y1 x2 y2 draw) := by
  by_cases hon : (x1 < 640 ∧ y1 < 480) ∧ x1 < x2 ∧ y1 < y2
  · have hclip : clip x1 y1 x2 y2 draw = draw (if x1 < 0 then 0 else x1)
        (if y1 < 0 then 0 else y1) (if x2 > 640 then 640 else x2)
        (if y2 > 480 then 480 else y2) :=
      funext fun s => clip_of_on hon.1 hon.2.1 hon.2.2
    rw [hclip]
    exact fun s hs => (h hon s hs).imp_right fun haff => haff.congr fun i => painted_clip
  · have hid : clip x1 y1 x2 y2 draw = id := by
      funext s
      by_cases hoff : x1 ≥ 640 ∨ y1 ≥ 480
      · exact clip_of_off hoff
      · exact clip_of_empty (by omega)
    rw [hid]
    refine fills_id fun i hi => ?_
    obtain ⟨-, ⟨hsx, hsy⟩, ⟨hx, hy⟩, -⟩ := hi
    omega

/-- A tile on clipped coordinates, which may be those of a rectangle that is not on the screen. -/
theorem fills_clipped (hok : TileOk tile) (h1 : 0 ≤ x1) (h2 : x2 ≤ 640) (hy1 : 0 ≤ y1)
    (hy2 : y2 ≤ 480)
    (hno : x1 < x2 ∨ vgaDitherIsUniform tile = true ∨
      ∀ y : Int, y1 ≤ y ∧ y < y2 → ∀ c < 8, tile ((y % 8).toNat * 8 + c) = ditherNone) :
    Fills tile x1 y1 x2 y2 (vgaDrawDitherTile x1 y1 x2 y2 tile) := by
  unfold vgaDrawDitherTile
  by_cases huniform : vgaDitherIsUniform tile = true
  · by_cases hnone : tile 0 = ditherNone
    · have hid : (fun s => if vgaDitherIsUniform tile then
          if tile 0 ≠ ditherNone then vgaSimpleRect x1 y1 x2 y2 (BitVec.ofNat 8 (tile 0)) s else s
          else vgaDrawDitherRect x1 y1 x2 y2 tile s) = id := by
        funext s
        rw [if_pos huniform, if_neg (not_not.mpr hnone)]
        rfl
      rw [hid]
      exact fills_id fun i hi => hi.2.2.2 ((tileAt_of_uniform huniform _ _).trans hnone)
    · simp only [huniform, if_true, if_pos hnone]
      exact fills_simpleRect huniform hok hnone h1 h2 hy1 hy2
  · simp only [huniform]
    by_cases h12 : x1 < x2
    · exact fills_ditherRect hok h1 h12 h2 hy1 hy2
    · -- there is nothing to write in any row
      have hall := (hno.resolve_left h12).resolve_left huniform
      have hcell {y : Int} {i : Int × Nat} (hy : y1 ≤ y ∧ y < y2) : ¬ tile (cell y i) < 16 := by
        unfold cell
        rw [hall y hy _ (by omega), ditherNone]
        decide
      intro s hs
      have htarget (i : Int × Nat) (y : Int) (hy : y1 ≤ y ∧ y < y2) (_ : InStrips x1 x2 y i)
          (hlt : tile (cell y i) < 16) : tileAt tile (pixelX i) (pixelY i) = tile (cell y i) :=
        absurd hlt (hcell hy)
      obtain ⟨hrest, haff⟩ :=
        vgaDrawDitherRect_affects_all (fun i => tileAt tile (pixelX i) (pixelY i)) hs htarget
      refine ⟨hrest, haff.congr fun i => iff_of_false ?_ ?_⟩
      · rintro ⟨y, hy, -, hlt⟩
        exact hcell hy hlt
      · rintro ⟨-, -, ⟨hx, -⟩, -⟩
        omega

/--
A rectangle to the left of the screen, with a tile that is dithered and that has a colour in one of
the rows.
-/
def Slips (tile : Nat → Nat) (x1 y1 x2 y2 : Int) : Prop :=
  (x1 < x2 ∧ x2 ≤ 0) ∧ vgaDitherIsUniform tile = false ∧
    ∃ y : Int, ((y1 ≤ y ∧ y < y2) ∧ 0 ≤ y ∧ y < 480) ∧
      ∃ c < 8, tile ((y % 8).toNat * 8 + c) ≠ ditherNone

theorem fills_drawDitherTile (hok : TileOk tile) (hno : ¬ Slips tile x1 y1 x2 y2) :
    Fills tile x1 y1 x2 y2
      (clip x1 y1 x2 y2 fun x1 y1 x2 y2 => vgaDrawDitherTile x1 y1 x2 y2 tile) := by
  refine fills_clip fun hon => ?_
  refine fills_clipped hok (by omega) (by omega) (by omega) (by omega) ?_
  by_cases hleft : x2 ≤ 0
  · refine Or.inr (or_iff_not_imp_left.mpr fun hdither y hy c hc => ?_)
    by_contra hcolour
    exact hno ⟨⟨hon.2.1, hleft⟩, Bool.eq_false_iff.mpr hdither, y, by omega, c, hc, hcolour⟩
  · exact Or.inl (by omega)

/-- A rectangle that is clipped twice does not slip. -/
theorem fills_clip_clip (hok : TileOk tile) :
    Fills tile x1 y1 x2 y2
      (clip x1 y1 x2 y2 fun x1 y1 x2 y2 =>
        clip x1 y1 x2 y2 fun x1 y1 x2 y2 => vgaDrawDitherTile x1 y1 x2 y2 tile) := by
  refine fills_clip fun hon => ?_
  have hx : 0 ≤ (if x1 < 0 then 0 else x1) ∧ (if x2 > 640 then 640 else x2) ≤ 640 := by omega
  have hy : 0 ≤ (if y1 < 0 then 0 else y1) ∧ (if y2 > 480 then 480 else y2) ≤ 480 := by omega
  generalize (if x1 < 0 then 0 else x1) = X1 at hx
  generalize (if x2 > 640 then 640 else x2) = X2 at hx
  generalize (if y1 < 0 then 0 else y1) = Y1 at hy
  generalize (if y2 > 480 then 480 else y2) = Y2 at hy
  by_cases hempty : X1 ≥ X2 ∨ Y1 ≥ Y2
  · have hid : clip X1 Y1 X2 Y2 (fun x1 y1 x2 y2 => vgaDrawDitherTile x1 y1 x2 y2 tile) = id :=
      funext fun s => clip_of_empty hempty
    rw [hid]
    refine fills_id fun i hi => ?_
    obtain ⟨-, -, ⟨hx, hy⟩, -⟩ := hi
    omega
  · have hdraw : clip X1 Y1 X2 Y2 (fun x1 y1 x2 y2 => vgaDrawDitherTile x1 y1 x2 y2 tile) =
        vgaDrawDitherTile X1 Y1 X2 Y2 tile :=
      funext fun s => clip_of_inside ⟨hx.1, by omega, hx.2⟩ ⟨hy.1, by omega, hy.2⟩
    rw [hdraw]
    exact fills_clipped hok hx.1 hx.2 hy.1 hy.2 (Or.inl (by omega))

/-- An adapter with the same byte everywhere. -/
def filledWith (v : BitVec 8) : Adapter where
  vram := fun _ _ => v
  latch := fun _ => 0
  regs := ⟨2, 5, 0x0F, 0, 0, 0, 0, 0xFF⟩

/-- Something to the right of the rectangle is drawn. -/
theorem not_fillsExactly_of_slips (hok : TileOk tile) (hslips : Slips tile x1 y1 x2 y2) :
    ¬ FillsExactly tile x1 y1 x2 y2
      (clip x1 y1 x2 y2 fun x1 y1 x2 y2 => vgaDrawDitherTile x1 y1 x2 y2 tile) := by
  obtain ⟨⟨h12, hleft⟩, hdither, hrow⟩ := hslips
  -- the last row with a colour is not drawn over
  obtain ⟨y, ⟨hy, c, hc, hcolour⟩, hlast⟩ := Int.exists_greatest_of_bdd
    ⟨480, fun z hz => Int.le_of_lt hz.1.2.2⟩ hrow
  have hlt : tile ((y % 8).toNat * 8 + c) < 16 := (hok _ (by omega)).resolve_right hcolour
  have hcell : cell y (80 * y, 7 - c) = (y % 8).toNat * 8 + c := by
    unfold cell
    dsimp only
    omega
  have hclip (s : Adapter) :
      clip x1 y1 x2 y2 (fun x1 y1 x2 y2 => vgaDrawDitherTile x1 y1 x2 y2 tile) s =
        vgaDrawDitherRect 0 (if y1 < 0 then 0 else y1) x2 (if y2 > 480 then 480 else y2) tile
          s := by
    rw [clip_of_on (by omega) h12 (by omega), if_pos (show x1 < 0 by omega),
      if_neg (show ¬ x2 > 640 by omega), vgaDrawDitherTile,
      if_neg (by rw [hdither]; exact Bool.false_ne_true)]
  have hstrip {z : Int} : InStrips 0 x2 z (80 * y, 7 - c) → z = y ∨ y < z := by
    unfold InStrips InByte
    rw [if_neg (by omega)]
    dsimp only
    rintro (⟨h, -⟩ | ⟨b, hb, h, -⟩ | ⟨h, -⟩) <;> omega
  have hdraw (s : Adapter) (hs : s.regs.Resting) :
      bits (vgaDrawDitherRect 0 (if y1 < 0 then 0 else y1) x2 (if y2 > 480 then 480 else y2) tile
        s).vram (80 * y, 7 - c) = colourBits (tile ((y % 8).toNat * 8 + c)) := by
    have htarget (_ : Unit) (z : Int)
        (hz : (if y1 < 0 then 0 else y1) ≤ z ∧ z < if y2 > 480 then 480 else y2)
        (hin : InStrips 0 x2 z (80 * y, 7 - c)) (hz16 : tile (cell z (80 * y, 7 - c)) < 16) :
        tile ((y % 8).toNat * 8 + c) = tile (cell z (80 * y, 7 - c)) := by
      rcases hstrip hin with rfl | hgt
      · rw [hcell]
      · have hle := hlast z ⟨by omega, 7 - (7 - c), by omega, fun hnone => ?_⟩
        · omega
        · unfold cell at hz16
          dsimp only at hz16
          rw [hnone, ditherNone] at hz16
          omega
    obtain ⟨-, haff⟩ := vgaDrawDitherRect_affects (fun _ : Unit => (80 * y, 7 - c))
      (fun _ => tile ((y % 8).toNat * 8 + c)) hs htarget
    refine (haff ()).1 ⟨y, by omega, ?_, by rw [hcell]; exact hlt⟩
    unfold InStrips InByte leftMask
    rw [if_neg (by omega)]
    exact Or.inl ⟨by omega, getLsbD_left.mpr ⟨by dsimp only; omega, by dsimp only; omega⟩⟩
  intro hexact
  have hkeep (s : Adapter) (hs : s.regs.Resting) :
      colourBits (tile ((y % 8).toNat * 8 + c)) = bits s.vram (80 * y, 7 - c) := by
    have hplace : place c y = (80 * y, 7 - c) := by
      unfold place
      rw [Prod.mk.injEq]
      omega
    have hout := hexact.outside s hs c y ⟨by omega, by omega⟩ fun hin => by
      have hx := hin.1.1.2
      omega
    unfold pixel at hout
    rw [hplace, hclip, hdraw s hs] at hout
    exact hout
  have hzero := congrFun (hkeep (filledWith 0) ⟨rfl, rfl, Or.inl rfl⟩) 0
  have hone := congrFun (hkeep (filledWith 0xFF) ⟨rfl, rfl, Or.inl rfl⟩) 0
  rw [hzero] at hone
  have hbit : (0xFF : BitVec 8).getLsbD (7 - c) = true := getLsbD_byte.mpr (by omega)
  have hbit' : (0 : BitVec 8).getLsbD (7 - c) = true := hone.trans hbit
  simp at hbit'

end Rects

/-! ## The two kinds of rectangles -/

theorem tileOk_getDither (col : Nat) (out : Nat → Nat) : TileOk (getDither col out) :=
  fun _ hp => Or.inl (getDither_lt col out hp)

/-- The colours that are not dithered have tiles of one colour. -/
theorem flatColour_tile {colour : Nat} {color : BitVec 8} (h : flatColour colour = some color)
    {p : Nat} (hp : p < 64) : getDither colour (fun _ => 0) p = color.toNat := by
  have hall : ∀ q : Nat × BitVec 8, q ∈ [(0xFF000000, 0), (0xFF808080, 8), (0xFFC0C0C0, 7),
      (0xFFFFFFFF, 15), (0xFF000080, 4), (0xFF008080, 6)] →
        ∀ p < 64, getDither q.1 (fun _ => 0) p = q.2.toNat := by decide +kernel
  refine hall (colour, color) ?_ p hp
  unfold flatColour at h
  split_ifs at h <;> obtain rfl := Option.some.inj h <;> subst colour <;> decide

/-- The tile of a colour: its dither, or nothing if it is transparent. -/
def solidTile (stale : Nat → Nat) (colour : Nat) : Nat → Nat :=
  match opaqueTile stale colour with
  | some tile => tile
  | none => fun _ => ditherNone

/-- The tile of a brush: that of one colour or the other, as the pattern says. -/
def brushTile (stale : Nat → Nat) (primary secondary : Nat) (pattern : Nat → BitVec 8) :
    Nat → Nat :=
  mergeTiles (opaqueTile stale primary) (opaqueTile stale secondary) pattern

section Put

variable {stale : Nat → Nat} {x1 y1 x2 y2 : Int} {colour primary secondary : Nat}
  {pattern : Nat → BitVec 8} {tile : Nat → Nat}

theorem drawDitherTile_iff (hok : TileOk tile) :
    FillsExactly tile x1 y1 x2 y2
        (clip x1 y1 x2 y2 fun x1 y1 x2 y2 => vgaDrawDitherTile x1 y1 x2 y2 tile) ↔
      ¬ Slips tile x1 y1 x2 y2 :=
  ⟨fun hexact hslips => not_fillsExactly_of_slips hok hslips hexact,
    fun hno => (fills_drawDitherTile hok hno).exactly⟩

/-- The flat colours are drawn as their tiles would be. -/
theorem vgaPutSolidRect_of_isOpaqueColour (h : isOpaqueColour colour = true) :
    vgaPutSolidRect stale x1 y1 x2 y2 colour =
      clip x1 y1 x2 y2 fun x1 y1 x2 y2 =>
        vgaDrawDitherTile x1 y1 x2 y2 (getDither colour stale) := by
  funext s
  unfold vgaPutSolidRect
  rw [h, Bool.not_true, if_neg Bool.false_ne_true]
  congr 1
  funext x1 y1 x2 y2 s
  cases hflat : flatColour colour with
  | none => rfl
  | some color =>
    have htile {p : Nat} (hp : p < 64) : getDither colour stale p = color.toNat :=
      (getDither_congr colour stale _ hp).trans (flatColour_tile hflat hp)
    have huniform : vgaDitherIsUniform (getDither colour stale) = true := by
      unfold vgaDitherIsUniform
      rw [List.all_eq_true]
      intro i hi
      have hlt := List.mem_range.mp hi
      rw [htile (by omega), htile (by omega)]
      exact decide_eq_true rfl
    have hcolour : getDither colour stale 0 ≠ ditherNone := by
      have hlt := getDither_lt colour stale (p := 0) (by decide)
      unfold ditherNone
      omega
    unfold vgaDrawDitherTile
    rw [if_pos huniform, if_pos hcolour, htile (by decide), BitVec.ofNat_toNat, BitVec.setWidth_eq]

theorem not_slips_none : ¬ Slips (fun _ => ditherNone) x1 y1 x2 y2 :=
  fun h => by
    obtain ⟨-, -, y, -, c, -, hcolour⟩ := h
    exact hcolour rfl

theorem fills_none : Fills (fun _ => ditherNone) x1 y1 x2 y2 id :=
  fills_id fun _ hi => hi.2.2.2 rfl

theorem vgaPutSolidRect_iff (stale : Nat → Nat) (x1 y1 x2 y2 : Int) (colour : Nat) :
    FillsExactly (solidTile stale colour) x1 y1 x2 y2
        (vgaPutSolidRect stale x1 y1 x2 y2 colour) ↔
      ¬ Slips (solidTile stale colour) x1 y1 x2 y2 := by
  unfold solidTile opaqueTile
  by_cases h : isOpaqueColour colour = true
  · rw [vgaPutSolidRect_of_isOpaqueColour h, if_pos h]
    exact drawDitherTile_iff (tileOk_getDither colour stale)
  · rw [if_neg h]
    have hid : vgaPutSolidRect stale x1 y1 x2 y2 colour = id := by
      funext s
      unfold vgaPutSolidRect
      rw [Bool.not_eq_true _ |>.mp h]
      rfl
    rw [hid]
    exact iff_of_true fills_none.exactly not_slips_none

theorem tileOk_brushTile : TileOk (brushTile stale primary secondary pattern) := by
  intro p hp
  have hopaqueTile (colour : Nat) : ∀ tile, opaqueTile stale colour = some tile → tile p < 16 := by
    intro tile htile
    unfold opaqueTile at htile
    split_ifs at htile
    obtain rfl := Option.some.inj htile
    exact getDither_lt colour stale hp
  unfold brushTile mergeTiles
  dsimp only
  split_ifs
  · cases htile : opaqueTile stale primary with
    | none => exact Or.inr rfl
    | some tile => exact Or.inl (hopaqueTile primary tile htile)
  · cases htile : opaqueTile stale secondary with
    | none => exact Or.inr rfl
    | some tile => exact Or.inl (hopaqueTile secondary tile htile)

/-- One colour for both is that colour. -/
theorem brushTile_self : brushTile stale colour colour pattern = solidTile stale colour := by
  funext p
  unfold brushTile mergeTiles solidTile
  dsimp only
  rw [ite_self]
  cases opaqueTile stale colour <;> rfl

theorem vgaPutBrushRect_iff (stale : Nat → Nat) (x1 y1 x2 y2 : Int) (primary secondary : Nat)
    (pattern : Nat → BitVec 8) :
    FillsExactly (brushTile stale primary secondary pattern) x1 y1 x2 y2
        (vgaPutBrushRect stale x1 y1 x2 y2 primary secondary pattern) ↔
      ¬ (primary ≠ secondary ∧
        Slips (brushTile stale primary secondary pattern) x1 y1 x2 y2) := by
  unfold vgaPutBrushRect
  by_cases hnone : (!isOpaqueColour primary && !isOpaqueColour secondary) = true
  · -- nothing is drawn
    have htile : brushTile stale primary secondary pattern = fun _ => ditherNone := by
      rw [Bool.and_eq_true, Bool.not_eq_true', Bool.not_eq_true'] at hnone
      funext p
      unfold brushTile mergeTiles opaqueTile
      dsimp only
      simp only [hnone.1, hnone.2, Bool.false_eq_true, if_false, ite_self]
    simp only [hnone, if_true]
    rw [htile]
    refine iff_of_true ?_ fun h => not_slips_none h.2
    exact (fills_clip fun _ => fills_none).exactly
  simp only [hnone]
  by_cases hsame : primary = secondary
  · subst hsame
    have hcolour : isOpaqueColour primary = true := by
      simpa using hnone
    have hsolid : brushTile stale primary primary pattern = getDither primary stale := by
      rw [brushTile_self, solidTile, opaqueTile, if_pos hcolour]
    rw [hsolid]
    simp only [if_true, vgaPutSolidRect_of_isOpaqueColour hcolour]
    exact iff_of_true (fills_clip_clip (tileOk_getDither primary stale)).exactly
      fun h => h.1 rfl
  · simp only [hsame]
    rw [not_and]
    refine (drawDitherTile_iff tileOk_brushTile).trans ⟨fun h _ => h, fun h => h hsame⟩

end Put

/--
A rectangle of one colour, or of a brush, is filled exactly, unless it is to the left of the screen
and its tile has to be dithered.
-/
theorem vgaFillRect_exactly_iff (stale : Nat → Nat) (x1 y1 x2 y2 : Int) :
    (∀ colour, FillsExactly (solidTile stale colour) x1 y1 x2 y2
        (vgaPutSolidRect stale x1 y1 x2 y2 colour) ↔
      ¬ Slips (solidTile stale colour) x1 y1 x2 y2) ∧
    ∀ primary secondary pattern,
      FillsExactly (brushTile stale primary secondary pattern) x1 y1 x2 y2
          (vgaPutBrushRect stale x1 y1 x2 y2 primary secondary pattern) ↔
        ¬ (primary ≠ secondary ∧
          Slips (brushTile stale primary secondary pattern) x1 y1 x2 y2) :=
  ⟨vgaPutSolidRect_iff stale x1 y1 x2 y2, vgaPutBrushRect_iff stale x1 y1 x2 y2⟩

/-- `VgaPutSolidRect(NULL, -16, 0, -8, 1, 0xFF400000)` draws at the left edge of the screen. -/
theorem not_fillsExactly_left :
    ¬ ∀ (stale : Nat → Nat) (x1 y1 x2 y2 : Int) (colour : Nat),
      FillsExactly (solidTile stale colour) x1 y1 x2 y2
        (vgaPutSolidRect stale x1 y1 x2 y2 colour) := by
  intro hall
  refine (vgaPutSolidRect_iff (fun _ => 0) (-16) 0 (-8) 1 0xFF400000).mp (hall ..) ?_
  refine ⟨by decide, by decide +kernel, 0, by decide, 0, by decide, by decide +kernel⟩

end Nolrem.Vga
