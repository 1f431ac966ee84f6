import Mathlib.Data.List.GetD
import Mathlib.Tactic.Ring
import Nolrem.Lib.CInt
import Nolrem.Vga.Rect

/-!
# Drawing a glyph

`VGADrawGlyph` of `kernel/CLIPDRAW/driver/vga16/draw_glyph.c`, and `VgaNearestColour` of `colour.c`
beside it. A glyph is a list of bytes, eight pixels wide strips one after another.
-/

namespace Nolrem.Vga

open Nolrem.Lib

/-! ## The code -/

/-- `dr * dr + dg * dg + db * db` for a colour of the palette -/
def paletteDistance (rgb : Nat) (i : Nat) : Int :=
  let (r, g, b) := vgaPalette.getD i (0, 0, 0)
  let dr := ((rgb / 65536 % 256 : Nat) : Int) - (r : Int)
  let dg := ((rgb / 256 % 256 : Nat) : Int) - (g : Int)
  let db := ((rgb % 256 : Nat) : Int) - (b : Int)
  dr * dr + dg * dg + db * db

/-- The loop of `VgaNearestColour` over the rest of the palette. -/
def nearestLoop (rgb : Nat) : List Nat → Nat → Int → Nat
  | [], best, _ => best
  | i :: rest, best, bestDist =>
    let d := paletteDistance rgb i
    if d < bestDist then if d = 0 then i else nearestLoop rgb rest i d
    else nearestLoop rgb rest best bestDist

/-- `VgaNearestColour`: the index, and what is in `cached` afterwards. -/
def vgaNearestColour (cached col : Nat) : Nat × Nat :=
  if col = 0xFF000000 then (0, cached)
  else if col / 16777216 ≠ 0xFF then (0, cached)
  else if cached % 16777216 = col % 16777216 then (cached / 16777216, cached)
  else
    let best := nearestLoop (col % 16777216) (List.range 16) 0 0x7FFFFFFF
    (best, best * 16777216 + col % 16777216)

/-- `struct rect` -/
structure Rect where
  x : Int
  y : Int
  w : Int
  h : Int

/-- The variables of `VGADrawGlyph` that its loops read; the box is clipped. -/
structure Glyph where
  x : Int
  y : Int
  h : Int
  strips : Int
  bytes : List (BitVec 8)
  x1 : Int
  x2 : Int
  colour : BitVec 8

namespace Glyph

variable (g : Glyph)

def baseByte : Int := g.x / 8

def shift : Nat := (g.x % 8).toNat

def startByte : Int := g.x1 / 8

def endByte : Int := (g.x2 - 1) / 8

def kLo : Int := if g.startByte - g.baseByte - 1 < 0 then 0 else g.startByte - g.baseByte - 1

def kHi : Int := if g.endByte - g.baseByte > g.strips then g.strips else g.endByte - g.baseByte

/-- `wide`, `none` if `k * glyph_h` overflows or the byte is not in the glyph -/
def wide (sy k : Int) : Option (BitVec 16) :=
  if k < g.strips then do
    let i ← cInt (k * g.h)
    let byte ← if 0 ≤ sy - g.y + i then g.bytes[(sy - g.y + i).toNat]? else none
    some (byte.setWidth 16 <<< (8 - g.shift))
  else some 0

/-- The masks at both ends -/
def edgeMask (b : Int) (mask : BitVec 8) : BitVec 8 :=
  let mask := if b = g.startByte then mask &&& leftMask g.x1 else mask
  if b = g.endByte then mask &&& rightMask g.x2 else mask

end Glyph

/-- The adapter, with `current_mask` -/
structure Masked where
  adapter : Adapter
  currentMask : Int

def Masked.setMask (st : Masked) (mask : BitVec 8) : Masked :=
  if st.currentMask ≠ mask.toNat then ⟨st.adapter.outb 0x3CF mask, mask.toNat⟩ else st

namespace Glyph

variable (g : Glyph)

/-- The body of the inner loop, once the mask of the byte `b` is known. -/
def putByte (sy b : Int) (mask : BitVec 8) (st : Masked) : Masked :=
  if b < g.startByte then st
  else if g.edgeMask b mask = 0 then st
  else
    let st := st.setMask (g.edgeMask b mask)
    { st with adapter := st.adapter.touch (80 * sy + b) g.colour }

/-- The inner loop from `k` on; `n` rounds are left. -/
def drawStrips (sy : Int) : Nat → Int → BitVec 16 → Masked → Option Masked
  | 0, _, _, st => some st
  | n + 1, k, carry, st => do
    let wide ← g.wide sy k
    let mask := (wide >>> 8 ||| carry).setWidth 8
    drawStrips sy n (k + 1) (wide &&& 0xFF) (g.putByte sy (g.baseByte + k) mask st)

/-- The outer loop from `sy` on; `n` rounds are left. -/
def drawRows : Nat → Int → Masked → Option Masked
  | 0, _, st => some st
  | n + 1, sy, st => do
    let st ← g.drawStrips sy (g.kHi + 1 - g.kLo).toNat g.kLo 0 st
    drawRows n (sy + 1) st

end Glyph

/-- `x1`, `y1`, `x2` and `y2`, after the clipping -/
def clipLeft (x : Int) (bound : Rect) : Int := max (max x bound.x) 0

def clipTop (y : Int) (bound : Rect) : Int := max (max y bound.y) 0

def clipRight (xw : Int) (bound : Rect) : Int := min (min xw (bound.x + bound.w)) 640

def clipBottom (yh : Int) (bound : Rect) : Int := min (min yh (bound.y + bound.h)) 480

/--
`VGADrawGlyph`: the adapter and `cached` afterwards; `none` if `int` overflows or a byte is read
that is not in the glyph.
-/
def vgaDrawGlyph (cached : Nat) (x y : Int) (bound : Rect) (col : Nat) (w h : Int)
    (bytes : List (BitVec 8)) (s : Adapter) : Option (Adapter × Nat) :=
  if col / 16777216 ≠ 0xFF then some (s, cached)
  else if w ≤ 0 ∨ h ≤ 0 then some (s, cached)
  else do
    let xw ← cInt (x + w)
    let yh ← cInt (y + h)
    let x1 := clipLeft x bound
    let y1 := clipTop y bound
    let x2 := clipRight xw bound
    let y2 := clipBottom yh bound
    if x1 ≥ x2 ∨ y1 ≥ y2 then some (s, cached)
    else do
      let nearest := vgaNearestColour cached col
      let w7 ← cInt (w + 7)
      let g : Glyph :=
        ⟨x, y, h, w7 / 8, bytes, x1, x2, BitVec.ofNat 8 nearest.1 &&& 0x0F⟩
      let s := (outGc 5 2 s).outb 0x3CE 8
      let st ← g.drawRows (y2 - y1).toNat y1 ⟨s, -1⟩
      some (st.adapter.outb 0x3CF 0xFF, nearest.2)

/-! ## What drawing a glyph is -/

/-- The colour of the palette is one of the nearest. -/
def IsNearest (rgb c : Nat) : Prop :=
  c < 16 ∧ ∀ i < 16, paletteDistance rgb c ≤ paletteDistance rgb i

/-- `cached` has a colour of the palette that is the nearest one of its colour. -/
def CacheOk (cached : Nat) : Prop := IsNearest (cached % 16777216) (cached / 16777216)

/-- The bit of a glyph in column `i` of row `j` -/
def glyphBit (h : Int) (bytes : List (BitVec 8)) (i j : Int) : Bool :=
  (bytes.getD (i / 8 * h + j).toNat 0).getLsbD (7 - (i % 8).toNat)

/-- The pixel belongs to the glyph, and is neither out of the bound nor off the screen. -/
def GlyphPixel (x y : Int) (bound : Rect) (w h : Int) (bytes : List (BitVec 8)) (px py : Int) :
    Prop :=
  InRect x y (x + w) (y + h) px py ∧
    InRect bound.x bound.y (bound.x + bound.w) (bound.y + bound.h) px py ∧
    OnScreen px py ∧ glyphBit h bytes (px - x) (py - y) = true

/-- A call ends and gives the nearest colour to the pixels of the glyph, and to no others. -/
def DrawsGlyph (cached : Nat) (x y : Int) (bound : Rect) (col : Nat) (w h : Int)
    (bytes : List (BitVec 8)) (s : Adapter) : Prop :=
  ∃ c s' cached', IsNearest (col % 16777216) c ∧
    vgaDrawGlyph cached x y bound col w h bytes s = some (s', cached') ∧
    CacheOk cached' ∧ s'.regs.Resting ∧
    Affects (fun _ _ => colourBits c)
      (fun i => i.2 < 8 ∧ GlyphPixel x y bound w h bytes (pixelX i) (pixelY i))
      (bits s.vram) (bits s'.vram)

/-! ## The nearest colour -/

section Nearest

variable {cached col : Nat}

theorem paletteDistance_nonneg (rgb i : Nat) : 0 ≤ paletteDistance rgb i :=
  Int.add_nonneg (Int.add_nonneg (mul_self_nonneg _) (mul_self_nonneg _)) (mul_self_nonneg _)

/-- The induction is on the rest of the palette: one of it is nearer than before, or none. -/
theorem nearestLoop_spec (rgb : Nat) (l : List Nat) (best : Nat) (bestDist : Int) :
    (nearestLoop rgb l best bestDist ∈ l ∧
        paletteDistance rgb (nearestLoop rgb l best bestDist) ≤ bestDist ∧
        ∀ i ∈ l, paletteDistance rgb (nearestLoop rgb l best bestDist) ≤ paletteDistance rgb i) ∨
      nearestLoop rgb l best bestDist = best ∧ ∀ i ∈ l, bestDist ≤ paletteDistance rgb i := by
  induction l generalizing best bestDist with
  | nil => exact Or.inr ⟨rfl, fun i hi => absurd hi List.not_mem_nil⟩
  | cons j rest ih =>
    rw [nearestLoop]
    split_ifs with hless hzero
    · refine Or.inl ⟨List.mem_cons_self, hless.le, fun i _ => ?_⟩
      rw [hzero]
      exact paletteDistance_nonneg rgb i
    · rcases ih j (paletteDistance rgb j) with ⟨hmem, hle, hall⟩ | ⟨heq, hall⟩
      · exact Or.inl ⟨List.mem_cons_of_mem j hmem, hle.trans hless.le,
          List.forall_mem_cons.mpr ⟨hle, hall⟩⟩
      · rw [heq]
        exact Or.inl ⟨List.mem_cons_self, hless.le, List.forall_mem_cons.mpr ⟨le_refl _, hall⟩⟩
    · rcases ih best bestDist with ⟨hmem, hle, hall⟩ | ⟨heq, hall⟩
      · exact Or.inl ⟨List.mem_cons_of_mem j hmem, hle,
          List.forall_mem_cons.mpr ⟨hle.trans (not_lt.mp hless), hall⟩⟩
      · exact Or.inr ⟨heq, List.forall_mem_cons.mpr ⟨not_lt.mp hless, hall⟩⟩

theorem isNearest_nearestLoop (rgb : Nat) :
    IsNearest rgb (nearestLoop rgb (List.range 16) 0 0x7FFFFFFF) := by
  have hblack : paletteDistance rgb 0 < 0x7FFFFFFF := by
    have hsquare (n : Nat) : (0 : Int) ≤ (n % 256 : Nat) * (n % 256 : Nat) ∧
        ((n % 256 : Nat) : Int) * (n % 256 : Nat) ≤ 255 * 255 :=
      ⟨mul_self_nonneg _, mul_le_mul (by omega) (by omega) (by omega) (by omega)⟩
    have hr := hsquare (rgb / 65536)
    have hg := hsquare (rgb / 256)
    have hb := hsquare rgb
    unfold paletteDistance vgaPalette
    simp only [List.getD_cons_zero, Int.natCast_zero, Int.sub_zero]
    omega
  rcases nearestLoop_spec rgb (List.range 16) 0 0x7FFFFFFF with ⟨hmem, -, hall⟩ | ⟨-, hall⟩
  · exact ⟨List.mem_range.mp hmem, fun i hi => hall i (List.mem_range.mpr hi)⟩
  · exact absurd (hall 0 (by decide)) (not_le.mpr hblack)

theorem cacheOk_of_isNearest {rgb c : Nat} (h : IsNearest rgb c) (hrgb : rgb < 16777216) :
    CacheOk (c * 16777216 + rgb) := by
  have hmod : (c * 16777216 + rgb) % 16777216 = rgb := by omega
  have hdiv : (c * 16777216 + rgb) / 16777216 = c := by omega
  unfold CacheOk
  rwa [hmod, hdiv]

/-- The colour is the nearest one, whatever was asked for before. -/
theorem vgaNearestColour_spec (hcached : CacheOk cached) (hcol : col / 16777216 = 0xFF) :
    IsNearest (col % 16777216) (vgaNearestColour cached col).1 ∧
      CacheOk (vgaNearestColour cached col).2 := by
  unfold vgaNearestColour
  split_ifs with hblack hopaque hcache
  · rw [hblack]
    refine ⟨⟨Nat.succ_pos 15, fun i _ => ?_⟩, hcached⟩
    exact paletteDistance_nonneg _ i
  · exact absurd hcol hopaque
  · refine ⟨?_, hcached⟩
    rw [← hcache]
    exact hcached
  · have hnearest := isNearest_nearestLoop (col % 16777216)
    dsimp only
    exact ⟨hnearest, cacheOk_of_isNearest hnearest (Nat.mod_lt col (by decide))⟩

end Nearest

/-! ## A byte of a row -/

/-- The registers in the loops, and what is known of `current_mask`. -/
structure Masked.Ready (st : Masked) : Prop where
  regs : ModeTwo st.adapter.regs
  gcIndex : st.adapter.regs.gcIndex = 8
  mask : ∀ m : BitVec 8, st.currentMask = m.toNat → st.adapter.regs.bitMask = m

section Byte

variable {st : Masked} {g : Glyph} {c : Nat}

theorem outb_data {s : Adapter} (h : s.regs.gcIndex = 8) (val : BitVec 8) :
    (s.outb 0x3CF val).regs = { s.regs with bitMask := val } := by
  simp [Adapter.outb, Regs.outb, h]

theorem Masked.Ready.setMask (h : st.Ready) (mask : BitVec 8) :
    (st.setMask mask).Ready ∧ (st.setMask mask).adapter.regs.bitMask = mask ∧
      (st.setMask mask).adapter.vram = st.adapter.vram := by
  unfold Masked.setMask
  split_ifs with hmask
  · refine ⟨⟨?_, ?_, ?_⟩, ?_, rfl⟩ <;> dsimp only <;> rw [outb_data h.gcIndex]
    · exact ⟨h.regs.mapMask, h.regs.dataRotate, h.regs.mode⟩
    · exact h.gcIndex
    · intro m hm
      exact BitVec.eq_of_toNat_eq (Int.natCast_inj.mp hm)
  · exact ⟨h, h.mask mask (not_not.mp hmask), rfl⟩

/-- The pixels of the byte `b` are those of the mask, between the ends. -/
theorem putByte_affects (h : st.Ready) (hcolour : g.colour = BitVec.ofNat 8 c &&& 0x0F)
    (hc : c < 16) (sy b : Int) (mask : BitVec 8) :
    (g.putByte sy b mask st).Ready ∧
      Affects (fun _ _ => colourBits c)
        (fun i => g.startByte ≤ b ∧ InByte (80 * sy + b) (g.edgeMask b mask) i)
        (bits st.adapter.vram) (bits (g.putByte sy b mask st).adapter.vram) := by
  unfold Glyph.putByte
  split_ifs with hleft hzero
  · exact ⟨h, Affects.refl fun i hi => absurd hi.1 (by omega)⟩
  · refine ⟨h, Affects.refl fun i hi => ?_⟩
    have hbit := hi.2.2
    rw [hzero] at hbit
    simp at hbit
  · obtain ⟨hready, hbit, hvram⟩ := h.setMask (g.edgeMask b mask)
    have hfills := hready.regs.fills (BitVec.ofNat 8 c)
    rw [BitVec.toNat_ofNat, Nat.mod_eq_of_lt (by omega), ← hcolour] at hfills
    obtain ⟨hregs, haff⟩ := Adapter.touch_affects hfills (80 * sy + b)
    rw [hbit, hvram] at haff
    refine ⟨⟨?_, ?_, ?_⟩, haff.congr fun i => ⟨fun hi => ⟨by omega, hi⟩, fun hi => hi.2⟩⟩ <;>
      dsimp only <;> rw [hregs]
    · exact hready.regs
    · exact hready.gcIndex
    · exact hready.mask

end Byte

/-! ## A row -/

/-- `wide` of a strip, or nothing where there is no strip -/
def Glyph.wideOf (g : Glyph) (sy k : Int) : BitVec 16 :=
  if 0 ≤ k ∧ k < g.strips then
    (g.bytes.getD (k * g.h + (sy - g.y)).toNat 0).setWidth 16 <<< (8 - g.shift)
  else 0

/-- The byte that a strip and the one before it have in common -/
def Glyph.maskOf (g : Glyph) (sy k : Int) : BitVec 8 :=
  (g.wideOf sy k >>> 8 ||| g.wideOf sy (k - 1) &&& 0xFF).setWidth 8

section Row

variable {st : Masked} {g : Glyph} {c : Nat}

/-- The pixels of the bytes of a row, from the `k`-th on. -/
def Glyph.InRow (g : Glyph) (sy k : Int) (n : Nat) (i : Int × Nat) : Prop :=
  ∃ j, (k ≤ j ∧ j < k + n) ∧ g.startByte ≤ g.baseByte + j ∧
    InByte (80 * sy + (g.baseByte + j)) (g.edgeMask (g.baseByte + j) (g.maskOf sy j)) i

/-- The induction is on the strips; what is carried is known from the first byte that counts on. -/
theorem drawStrips_affects (hcolour : g.colour = BitVec.ofNat 8 c &&& 0x0F) (hc : c < 16)
    (sy : Int) (n : Nat) {k : Int} {carry : BitVec 16} (h : st.Ready)
    (hwide : ∀ j, k ≤ j ∧ j < k + n → g.wide sy j = some (g.wideOf sy j))
    (hcarry : g.startByte ≤ g.baseByte + k → carry = g.wideOf sy (k - 1) &&& 0xFF) :
    ∃ st', g.drawStrips sy n k carry st = some st' ∧ st'.Ready ∧
      Affects (fun _ _ => colourBits c) (g.InRow sy k n) (bits st.adapter.vram)
        (bits st'.adapter.vram) := by
  induction n generalizing k carry st with
  | zero => exact ⟨st, rfl, h, Affects.refl fun i ⟨j, hj, _⟩ => absurd hj (by omega)⟩
  | succ n ih =>
    rw [Glyph.drawStrips, hwide k (by omega), Option.bind_eq_bind, Option.bind_some]
    dsimp only
    obtain ⟨hready, hfirst⟩ := putByte_affects h hcolour hc sy (g.baseByte + k)
      ((g.wideOf sy k >>> 8 ||| carry).setWidth 8)
    obtain ⟨st', hrest, hready', haff⟩ := ih (k := k + 1) hready
      (fun j hj => hwide j (by omega)) (fun _ => by rw [Int.add_sub_cancel])
    refine ⟨st', hrest, hready', (hfirst.comp haff fun _ _ _ _ => rfl).congr fun i => ?_⟩
    constructor
    · rintro (⟨hstart, hbyte⟩ | ⟨j, hj, hbyte⟩)
      · rw [hcarry hstart] at hbyte
        exact ⟨k, by omega, hstart, hbyte⟩
      · exact ⟨j, by omega, hbyte⟩
    · rintro ⟨j, hj, hstart, hbyte⟩
      rcases Int.lt_or_eq_of_le hj.1 with hlt | rfl
      · exact Or.inr ⟨j, by omega, hstart, hbyte⟩
      · refine Or.inl ⟨hstart, ?_⟩
        rw [hcarry hstart]
        exact hbyte

/-- A row that does not overflow reads a byte for each of its strips. -/
theorem drawStrips_isSome {sy : Int} {n : Nat} {k : Int} {carry : BitVec 16}
    (h : (g.drawStrips sy n k carry st).isSome) {j : Int} (hj : k ≤ j ∧ j < k + n) :
    (g.wide sy j).isSome := by
  induction n generalizing k carry st with
  | zero => omega
  | succ n ih =>
    rw [Glyph.drawStrips] at h
    cases hwide : g.wide sy k with
    | none =>
      rw [hwide] at h
      exact absurd h (by simp)
    | some wide =>
      rw [hwide, Option.bind_eq_bind, Option.bind_some] at h
      rcases Int.lt_or_eq_of_le hj.1 with hlt | rfl
      · exact ih h (by omega)
      · rw [hwide]
        rfl

/-- The induction is on the rows. -/
theorem drawRows_affects (hcolour : g.colour = BitVec.ofNat 8 c &&& 0x0F) (hc : c < 16) (n : Nat)
    {sy : Int} (h : st.Ready)
    (hwide : ∀ y, sy ≤ y ∧ y < sy + n → ∀ j, g.kLo ≤ j ∧ j ≤ g.kHi →
      g.wide y j = some (g.wideOf y j))
    (hlo : g.startByte ≤ g.baseByte + g.kLo → g.kLo = 0) :
    ∃ st', g.drawRows n sy st = some st' ∧ st'.Ready ∧
      Affects (fun _ _ => colourBits c)
        (fun i => ∃ y, (sy ≤ y ∧ y < sy + n) ∧ g.InRow y g.kLo (g.kHi + 1 - g.kLo).toNat i)
        (bits st.adapter.vram) (bits st'.adapter.vram) := by
  induction n generalizing sy st with
  | zero => exact ⟨st, rfl, h, Affects.refl fun i ⟨y, hy, _⟩ => absurd hy (by omega)⟩
  | succ n ih =>
    have hcarry : g.startByte ≤ g.baseByte + g.kLo →
        (0 : BitVec 16) = g.wideOf sy (g.kLo - 1) &&& 0xFF := fun hstart => by
      rw [hlo hstart, Glyph.wideOf, if_neg (by omega)]
      rfl
    obtain ⟨st1, hrow, hready, hfirst⟩ := drawStrips_affects hcolour hc sy
      (g.kHi + 1 - g.kLo).toNat h (fun j hj => hwide sy (by omega) j (by omega)) hcarry
    obtain ⟨st', hrest, hready', haff⟩ := ih hready
      fun y (hy : sy + 1 ≤ y ∧ y < sy + 1 + n) => hwide y (by omega)
    rw [Glyph.drawRows, hrow, Option.bind_eq_bind, Option.bind_some]
    refine ⟨st', hrest, hready', (hfirst.comp haff fun _ _ _ _ => rfl).congr fun i => ?_⟩
    constructor
    · rintro (hi | ⟨y, hy, hi⟩)
      · exact ⟨sy, by omega, hi⟩
      · exact ⟨y, by omega, hi⟩
    · rintro ⟨y, hy, hi⟩
      rcases Int.lt_or_eq_of_le hy.1 with hlt | rfl
      · exact Or.inr ⟨y, by omega, hi⟩
      · exact Or.inl hi

end Row

/-! ## The pixels of a glyph -/

section Pixels

variable {g : Glyph}

theorem getLsbD_wideOf (sy : Int) {k : Int} (hk : 0 ≤ k ∧ k < g.strips) {m : Nat} (hm : m < 16) :
    (g.wideOf sy k).getLsbD m = (decide (8 - g.shift ≤ m) &&
      (g.bytes.getD (k * g.h + (sy - g.y)).toNat 0).getLsbD (m - (8 - g.shift))) := by
  unfold Glyph.wideOf
  rw [if_pos hk, BitVec.getLsbD_shiftLeft, BitVec.getLsbD_setWidth]
  by_cases hle : 8 - g.shift ≤ m
  · simp [hle, hm, show m - (8 - g.shift) < 16 by omega]
  · simp [hle, Nat.not_le.mp hle]

/-- The column of the glyph that is the bit `m` of the byte of a strip -/
def Glyph.column (g : Glyph) (k : Int) (m : Nat) : Int := 8 * k + (7 - m) - g.shift

theorem getLsbD_maskOf (sy k : Int) {m : Nat} (hm : m < 8) : (g.maskOf sy k).getLsbD m = true ↔
    (0 ≤ g.column k m ∧ g.column k m < 8 * g.strips) ∧
      glyphBit g.h g.bytes (g.column k m) (sy - g.y) = true := by
  have hshift : g.shift < 8 := by
    unfold Glyph.shift
    omega
  have hlow : (0xFF : BitVec 16).getLsbD m = true := by
    have hall : ∀ m < 8, (0xFF : BitVec 16).getLsbD m = true := by decide
    exact hall m hm
  unfold Glyph.maskOf
  rw [BitVec.getLsbD_setWidth, BitVec.getLsbD_or, BitVec.getLsbD_ushiftRight, BitVec.getLsbD_and,
    hlow, Bool.and_true, decide_eq_true hm, Bool.true_and, Bool.or_eq_true]
  have hout {k : Int} (hk : ¬ (0 ≤ k ∧ k < g.strips)) (m : Nat) :
      (g.wideOf sy k).getLsbD m = false := by
    unfold Glyph.wideOf
    rw [if_neg hk]
    exact BitVec.getLsbD_zero
  unfold glyphBit
  by_cases hhigh : m + g.shift < 8
  · -- the pixel is in the strip itself
    have hdiv : g.column k m / 8 = k := by
      unfold Glyph.column
      omega
    have hmod : 7 - (g.column k m % 8).toNat = m + g.shift := by
      unfold Glyph.column
      omega
    have hrange : (0 ≤ g.column k m ∧ g.column k m < 8 * g.strips) ↔ 0 ≤ k ∧ k < g.strips := by
      unfold Glyph.column
      omega
    have hspill : (g.wideOf sy (k - 1)).getLsbD m = false := by
      by_cases hk : 0 ≤ k - 1 ∧ k - 1 < g.strips
      · rw [getLsbD_wideOf sy hk (by omega), decide_eq_false (by omega), Bool.false_and]
      · exact hout hk m
    rw [hdiv, hmod, hrange, hspill]
    by_cases hk : 0 ≤ k ∧ k < g.strips
    · rw [getLsbD_wideOf sy hk (by omega), decide_eq_true (by omega), Bool.true_and,
        show 8 + m - (8 - g.shift) = m + g.shift by omega]
      simp [hk]
    · rw [hout hk]
      simp [hk]
  · -- the pixel comes from the strip before
    have hdiv : g.column k m / 8 = k - 1 := by
      unfold Glyph.column
      omega
    have hmod : 7 - (g.column k m % 8).toNat = m - (8 - g.shift) := by
      unfold Glyph.column
      omega
    have hrange : (0 ≤ g.column k m ∧ g.column k m < 8 * g.strips) ↔
        0 ≤ k - 1 ∧ k - 1 < g.strips := by
      unfold Glyph.column
      omega
    have hown : (g.wideOf sy k).getLsbD (8 + m) = false := by
      by_cases hk : 0 ≤ k ∧ k < g.strips
      · rw [getLsbD_wideOf sy hk (by omega), BitVec.getLsbD_of_ge _ _ (by omega), Bool.and_false]
      · exact hout hk _
    rw [hdiv, hmod, hrange, hown]
    by_cases hk : 0 ≤ k - 1 ∧ k - 1 < g.strips
    · rw [getLsbD_wideOf sy hk (by omega), decide_eq_true (by omega), Bool.true_and,
        or_iff_right Bool.false_ne_true, and_iff_right hk]
    · rw [hout hk]
      exact iff_of_false (by decide) fun h => hk h.1

theorem getLsbD_edgeMask (b : Int) (mask : BitVec 8) {m : Nat} (hm : m < 8) :
    (g.edgeMask b mask).getLsbD m = true ↔ mask.getLsbD m = true ∧
      (b = g.startByte → g.x1 % 8 ≤ 7 - m) ∧ (b = g.endByte → 7 - m ≤ (g.x2 - 1) % 8) := by
  unfold Glyph.edgeMask leftMask rightMask
  dsimp only
  split_ifs with hend hstart hstart
  · simp only [BitVec.getLsbD_and, Bool.and_eq_true, getLsbD_left, getLsbD_right]
    grind
  · simp only [BitVec.getLsbD_and, Bool.and_eq_true, getLsbD_right]
    grind
  · simp only [BitVec.getLsbD_and, Bool.and_eq_true, getLsbD_left]
    grind
  · grind

/-- The clipped box is on the screen and inside of the strips. -/
structure Glyph.Clipped (g : Glyph) : Prop where
  x1_nonneg : 0 ≤ g.x1
  x1_lt : g.x1 < g.x2
  x2_le : g.x2 ≤ 640
  x_le : g.x ≤ g.x1
  le_strips : g.x2 ≤ g.x + 8 * g.strips

theorem Glyph.Clipped.kLo_eq (h : g.Clipped) (hlo : g.startByte ≤ g.baseByte + g.kLo) :
    g.kLo = 0 := by
  have := h.x_le
  unfold Glyph.kLo Glyph.startByte Glyph.baseByte at *
  split_ifs at * <;> omega

theorem Glyph.Clipped.kHi_eq (h : g.Clipped) : g.kHi = g.endByte - g.baseByte := by
  have := h.le_strips
  unfold Glyph.kHi Glyph.endByte Glyph.baseByte
  split_ifs <;> omega

theorem Glyph.k_bounds (g : Glyph) : 0 ≤ g.kLo ∧ g.startByte - g.baseByte - 1 ≤ g.kLo ∧
    g.kHi ≤ g.endByte - g.baseByte := by
  unfold Glyph.kLo Glyph.kHi
  split_ifs <;> omega

theorem Glyph.Clipped.inRow_iff (h : g.Clipped) {sy : Int} {i : Int × Nat} :
    g.InRow sy g.kLo (g.kHi + 1 - g.kLo).toNat i ↔ i.2 < 8 ∧ pixelY i = sy ∧
      (g.x1 ≤ pixelX i ∧ pixelX i < g.x2) ∧
      glyphBit g.h g.bytes (pixelX i - g.x) (sy - g.y) = true := by
  obtain ⟨h1, h12, h2, hx, hstrips⟩ := h
  have hhi := Glyph.Clipped.kHi_eq ⟨h1, h12, h2, hx, hstrips⟩
  have hklo : 0 ≤ g.kLo ∧ g.baseByte + g.kLo ≤ g.startByte := by
    unfold Glyph.kLo Glyph.startByte Glyph.baseByte
    split_ifs <;> omega
  have hcolumn (j : Int) (m : Nat) : g.column j m = 8 * (g.baseByte + j) + (7 - m) - g.x := by
    unfold Glyph.column Glyph.baseByte Glyph.shift
    omega
  have hbase : g.baseByte ≤ g.startByte := by
    unfold Glyph.startByte Glyph.baseByte
    omega
  obtain ⟨a, m⟩ := i
  unfold Glyph.InRow InByte
  dsimp only
  constructor
  · rintro ⟨j, hj, hstart, ha, hbit⟩
    have hm := BitVec.lt_of_getLsbD hbit
    obtain ⟨hmask, hleft, hright⟩ := (getLsbD_edgeMask _ _ hm).mp hbit
    obtain ⟨-, hglyph⟩ := (getLsbD_maskOf sy j hm).mp hmask
    rw [hcolumn] at hglyph
    have hend : g.baseByte + j ≤ g.endByte := by omega
    have hpx : pixelX (a, m) = 8 * (g.baseByte + j) + (7 - m) := by
      unfold pixelX
      unfold Glyph.startByte at hstart
      unfold Glyph.endByte at hend
      dsimp only
      omega
    have hpy : pixelY (a, m) = sy := by
      unfold pixelY
      unfold Glyph.startByte at hstart
      unfold Glyph.endByte at hend
      dsimp only
      omega
    rw [hpx]
    refine ⟨hm, hpy, ?_, hglyph⟩
    unfold Glyph.startByte at hstart hleft
    unfold Glyph.endByte at hend hright
    omega
  · rintro ⟨hm, hy, hx12, hglyph⟩
    have hbyte : pixelX (a, m) / 8 = a % 80 ∧ pixelX (a, m) = 8 * (a % 80) + (7 - m) := by
      unfold pixelX
      dsimp only
      omega
    have ha : a = 80 * sy + a % 80 := by
      unfold pixelY at hy
      dsimp only at hy
      omega
    have hstart : g.startByte ≤ a % 80 := by
      unfold Glyph.startByte
      omega
    have hend : a % 80 ≤ g.endByte := by
      unfold Glyph.endByte
      omega
    have hj : g.baseByte + (a % 80 - g.baseByte) = a % 80 := by omega
    refine ⟨a % 80 - g.baseByte, by omega, by omega, by rwa [hj], ?_⟩
    rw [hj, getLsbD_edgeMask _ _ hm, getLsbD_maskOf _ _ hm, hcolumn, hj, ← hbyte.2]
    refine ⟨⟨by omega, hglyph⟩, ?_, ?_⟩
    · unfold Glyph.startByte
      omega
    · unfold Glyph.endByte
      omega

end Pixels

/-! ## The whole call -/

section Call

variable {cached col : Nat} {x y w h : Int} {bound : Rect} {bytes : List (BitVec 8)} {s : Adapter}

/--
Nothing overflows: neither the ends of the box, nor, if some of it is left after the clipping, the
number of strips and the offset of each strip that is visited.
-/
def GlyphFits (x y w h : Int) (bound : Rect) : Prop :=
  0 < w → 0 < h → (FitsInt (x + w) ∧ FitsInt (y + h)) ∧
    (clipLeft x bound < clipRight (x + w) bound → clipTop y bound < clipBottom (y + h) bound →
      FitsInt (w + 7) ∧
        ∀ k, clipLeft x bound / 8 - x / 8 - 1 ≤ k → k ≤ (clipRight (x + w) bound - 1) / 8 - x / 8 →
          0 ≤ k → k < (w + 7) / 8 → FitsInt (k * h))

theorem wide_eq {g : Glyph} {sy k : Int} (hk : 0 ≤ k) (hy : g.y ≤ sy ∧ sy < g.y + g.h)
    (hbytes : (g.bytes.length : Int) = g.strips * g.h) (hfits : k < g.strips → FitsInt (k * g.h)) :
    g.wide sy k = some (g.wideOf sy k) := by
  unfold Glyph.wide Glyph.wideOf
  by_cases hlt : k < g.strips
  · have hnonneg : 0 ≤ k * g.h := Int.mul_nonneg hk (by omega)
    have hlast : (k + 1) * g.h ≤ g.strips * g.h :=
      Int.mul_le_mul_of_nonneg_right (by omega) (by omega)
    rw [Int.add_mul, Int.one_mul] at hlast
    have hindex : (k * g.h + (sy - g.y)).toNat < g.bytes.length := by omega
    rw [if_pos hlt, if_pos ⟨hk, hlt⟩, cInt_of_fits (hfits hlt), Option.bind_eq_bind,
      Option.bind_some]
    dsimp only
    rw [if_pos (by omega), Int.add_comm (sy - g.y), List.getElem?_eq_getElem hindex,
      List.getD_eq_getElem _ _ hindex]
    rfl
  · rw [if_neg hlt, if_neg fun h => hlt h.2]

/-- The variables of the loops -/
def glyphOf (x y w h : Int) (bound : Rect) (bytes : List (BitVec 8)) (c : Nat) : Glyph :=
  ⟨x, y, h, (w + 7) / 8, bytes, clipLeft x bound, clipRight (x + w) bound,
    BitVec.ofNat 8 c &&& 0x0F⟩

theorem vgaDrawGlyph_eq (hcol : col / 16777216 = 0xFF) (hw : 0 < w) (hh : 0 < h)
    (hx : FitsInt (x + w)) (hy : FitsInt (y + h))
    (hleft : clipLeft x bound < clipRight (x + w) bound)
    (htop : clipTop y bound < clipBottom (y + h) bound) (hw7 : FitsInt (w + 7)) :
    vgaDrawGlyph cached x y bound col w h bytes s =
      ((glyphOf x y w h bound bytes (vgaNearestColour cached col).1).drawRows
        (clipBottom (y + h) bound - clipTop y bound).toNat (clipTop y bound)
        ⟨(outGc 5 2 s).outb 0x3CE 8, -1⟩).map fun st =>
          (st.adapter.outb 0x3CF 0xFF, (vgaNearestColour cached col).2) := by
  unfold vgaDrawGlyph
  rw [if_neg (not_not.mpr hcol), if_neg (by omega), cInt_of_fits hx, cInt_of_fits hy,
    Option.bind_eq_bind, Option.bind_some, Option.bind_some]
  dsimp only
  rw [if_neg (by omega), cInt_of_fits hw7, Option.bind_some]
  exact Option.map_eq_bind.symm

/-- Nothing is drawn where nothing is left of the box. -/
theorem drawsGlyph_empty (hcached : CacheOk cached) (hs : s.regs.Resting)
    (hsame : vgaDrawGlyph cached x y bound col w h bytes s = some (s, cached))
    (hno : ∀ px py, ¬ GlyphPixel x y bound w h bytes px py) :
    DrawsGlyph cached x y bound col w h bytes s :=
  ⟨_, s, cached, isNearest_nearestLoop _, hsame, hcached, hs, Affects.refl fun _ hi =>
    hno _ _ hi.2⟩

theorem clipped_glyphOf {c : Nat} (hleft : clipLeft x bound < clipRight (x + w) bound) :
    (glyphOf x y w h bound bytes c).Clipped := by
  refine ⟨?_, hleft, ?_, ?_, ?_⟩ <;> unfold glyphOf <;> dsimp only
  · exact le_max_right _ _
  · exact min_le_right _ _
  · exact (le_max_left _ _).trans (le_max_left _ _)
  · unfold clipRight
    omega

/-- The pixels of the loops are those of the glyph. -/
theorem inRow_iff_glyphPixel {c : Nat} {i : Int × Nat}
    (hleft : clipLeft x bound < clipRight (x + w) bound) :
    (∃ sy, (clipTop y bound ≤ sy ∧ sy < clipBottom (y + h) bound) ∧
        (glyphOf x y w h bound bytes c).InRow sy (glyphOf x y w h bound bytes c).kLo
          ((glyphOf x y w h bound bytes c).kHi + 1 - (glyphOf x y w h bound bytes c).kLo).toNat i) ↔
      i.2 < 8 ∧ GlyphPixel x y bound w h bytes (pixelX i) (pixelY i) := by
  simp only [(clipped_glyphOf hleft).inRow_iff]
  unfold GlyphPixel InRect OnScreen
  unfold glyphOf clipLeft clipTop clipRight clipBottom
  dsimp only
  clear hleft
  -- each bound of the loops is four bounds at once
  simp only [max_le_iff, lt_min_iff]
  constructor
  · rintro ⟨sy, hsy, hm, rfl, hx, hbit⟩
    exact ⟨hm, by omega, by omega, by omega, hbit⟩
  · rintro ⟨hm, hbox, hbound, hscreen, hbit⟩
    exact ⟨pixelY i, by omega, hm, rfl, by omega, hbit⟩

theorem ready_start (hs : s.regs.Resting) :
    Masked.Ready ⟨(outGc 5 2 s).outb 0x3CE 8, -1⟩ := by
  have hregs : ((outGc 5 2 s).outb 0x3CE 8).regs = { s.regs with gcIndex := 8, mode := 2 } := by
    simp [Adapter.outb, Regs.outb, outGc]
  refine ⟨?_, ?_, fun m hm => ?_⟩
  · dsimp only
    rw [hregs]
    exact ⟨hs.mapMask, hs.dataRotate, rfl⟩
  · dsimp only
    rw [hregs]
  · have hneg : (-1 : Int) = m.toNat := hm
    omega

theorem drawsGlyph_of_fits (hcached : CacheOk cached) (hs : s.regs.Resting)
    (hcol : col / 16777216 = 0xFF)
    (hbytes : 0 < w → 0 < h → (bytes.length : Int) = (w + 7) / 8 * h)
    (hfits : GlyphFits x y w h bound) : DrawsGlyph cached x y bound col w h bytes s := by
  by_cases hsize : w ≤ 0 ∨ h ≤ 0
  · refine drawsGlyph_empty hcached hs ?_ fun px py hp => ?_
    · unfold vgaDrawGlyph
      rw [if_neg (not_not.mpr hcol), if_pos hsize]
    · have hbox := hp.1
      unfold InRect at hbox
      omega
  obtain ⟨⟨hx, hy⟩, hrest⟩ := hfits (by omega) (by omega)
  by_cases hempty : clipLeft x bound ≥ clipRight (x + w) bound ∨
      clipTop y bound ≥ clipBottom (y + h) bound
  · refine drawsGlyph_empty hcached hs ?_ fun px py hp => ?_
    · unfold vgaDrawGlyph
      rw [if_neg (not_not.mpr hcol), if_neg hsize, cInt_of_fits hx, cInt_of_fits hy,
        Option.bind_eq_bind, Option.bind_some, Option.bind_some]
      exact if_pos hempty
    · obtain ⟨hbox, hbound, hscreen, -⟩ := hp
      unfold InRect at hbox hbound
      unfold OnScreen at hscreen
      unfold clipLeft clipTop clipRight clipBottom at hempty
      omega
  obtain ⟨hleft, htop⟩ := not_or.mp hempty
  obtain ⟨hw7, hk⟩ := hrest (by omega) (by omega)
  obtain ⟨hnearest, hcached'⟩ := vgaNearestColour_spec hcached hcol
  rw [DrawsGlyph, vgaDrawGlyph_eq hcol (by omega) (by omega) hx hy (by omega) (by omega) hw7]
  generalize vgaNearestColour cached col = nearest at *
  have hwide (sy : Int) (hsy : clipTop y bound ≤ sy ∧
      sy < clipTop y bound + (clipBottom (y + h) bound - clipTop y bound).toNat) (k : Int)
      (hlohi : (glyphOf x y w h bound bytes nearest.1).kLo ≤ k ∧
        k ≤ (glyphOf x y w h bound bytes nearest.1).kHi) :
      (glyphOf x y w h bound bytes nearest.1).wide sy k =
        some ((glyphOf x y w h bound bytes nearest.1).wideOf sy k) := by
    obtain ⟨hlo, hlo', hhi⟩ := (glyphOf x y w h bound bytes nearest.1).k_bounds
    have hlo' : clipLeft x bound / 8 - x / 8 - 1 ≤ k := hlo'.trans hlohi.1
    have hhi : k ≤ (clipRight (x + w) bound - 1) / 8 - x / 8 := hlohi.2.trans hhi
    refine wide_eq (by omega) ?_ (hbytes (by omega) (by omega)) fun hlt =>
      hk k hlo' hhi (by omega) hlt
    show y ≤ sy ∧ sy < y + h
    unfold clipTop clipBottom at hsy
    omega
  obtain ⟨st', hrows, hready, haff⟩ := drawRows_affects rfl hnearest.1 _ (ready_start hs) hwide
    (clipped_glyphOf (Int.not_le.mp hleft)).kLo_eq
  refine ⟨nearest.1, st'.adapter.outb 0x3CF 0xFF, nearest.2, hnearest, by rw [hrows]; rfl, hcached',
    ?_, haff.congr fun i => ?_⟩
  · rw [outb_data hready.gcIndex]
    exact ⟨hready.regs.mapMask, hready.regs.dataRotate, Or.inr hready.regs.mode⟩
  · rw [← inRow_iff_glyphPixel (Int.not_le.mp hleft)]
    refine exists_congr fun sy => and_congr_left fun _ => ?_
    omega

/-- A call that ends has not overflowed. -/
theorem fits_of_drawsGlyph (hcol : col / 16777216 = 0xFF)
    (hdraws : DrawsGlyph cached x y bound col w h bytes s) : GlyphFits x y w h bound := by
  intro hw hh
  obtain ⟨c, s', cached', -, hdraw, -⟩ := hdraws
  have hxy : FitsInt (x + w) ∧ FitsInt (y + h) := by
    unfold vgaDrawGlyph at hdraw
    rw [if_neg (not_not.mpr hcol), if_neg (by omega)] at hdraw
    by_contra hno
    unfold cInt at hdraw
    by_cases hx : FitsInt (x + w)
    · rw [if_pos hx, if_neg fun hy => hno ⟨hx, hy⟩] at hdraw
      exact absurd hdraw (by simp)
    · rw [if_neg hx] at hdraw
      exact absurd hdraw (by simp)
  refine ⟨hxy, fun hleft htop => ?_⟩
  have hw7 : FitsInt (w + 7) := by
    unfold vgaDrawGlyph at hdraw
    rw [if_neg (not_not.mpr hcol), if_neg (by omega), cInt_of_fits hxy.1, cInt_of_fits hxy.2,
      Option.bind_eq_bind, Option.bind_some, Option.bind_some] at hdraw
    dsimp only at hdraw
    rw [if_neg (by omega)] at hdraw
    by_contra hno
    unfold cInt at hdraw
    rw [if_neg hno] at hdraw
    exact absurd hdraw (by simp)
  refine ⟨hw7, fun k hlo hhi hk hlt => ?_⟩
  rw [vgaDrawGlyph_eq hcol hw hh hxy.1 hxy.2 hleft htop hw7] at hdraw
  obtain ⟨st', hrows, -⟩ := Option.map_eq_some_iff.mp hdraw
  obtain ⟨n, hn⟩ : ∃ n, (clipBottom (y + h) bound - clipTop y bound).toNat = n + 1 :=
    ⟨(clipBottom (y + h) bound - clipTop y bound).toNat - 1, by omega⟩
  rw [hn, Glyph.drawRows] at hrows
  obtain ⟨st1, hrow, -⟩ := Option.bind_eq_some_iff.mp hrows
  have hkLo : (glyphOf x y w h bound bytes (vgaNearestColour cached col).1).kLo ≤ k := by
    unfold Glyph.kLo
    split_ifs
    · exact hk
    · exact hlo
  have hkHi : k ≤ (glyphOf x y w h bound bytes (vgaNearestColour cached col).1).kHi := by
    rw [(clipped_glyphOf hleft).kHi_eq]
    exact hhi
  have hread := drawStrips_isSome (Option.isSome_of_eq_some hrow) (j := k) ⟨hkLo, by omega⟩
  unfold Glyph.wide cInt at hread
  rw [if_pos (show k < (glyphOf x y w h bound bytes _).strips from hlt)] at hread
  by_contra hno
  rw [if_neg (show ¬ FitsInt (k * (glyphOf x y w h bound bytes _).h) from hno)] at hread
  exact absurd hread (by simp)

/--
An opaque glyph is drawn as it should be if and only if nothing overflows, whatever its position,
its size and the bound are. Bytes that are not in the glyph are not read.
-/
theorem drawsGlyph_iff (hcached : CacheOk cached) (hs : s.regs.Resting)
    (hcol : col / 16777216 = 0xFF)
    (hbytes : 0 < w → 0 < h → (bytes.length : Int) = (w + 7) / 8 * h) :
    DrawsGlyph cached x y bound col w h bytes s ↔ GlyphFits x y w h bound :=
  ⟨fits_of_drawsGlyph hcol, drawsGlyph_of_fits hcached hs hcol hbytes⟩

end Call

/-- A glyph of two strips, cut at the left edge -/
theorem drawsGlyph_iff_left :
    DrawsGlyph 0 (-3) 2 ⟨0, 0, 640, 480⟩ 0xFF0000FF 9 2 [0x18, 0x24, 0x80, 0] (filledWith 0) :=
  (drawsGlyph_iff (by unfold CacheOk IsNearest; decide) ⟨rfl, rfl, Or.inl rfl⟩ rfl
    fun _ _ => rfl).mpr fun _ _ => ⟨by decide, fun _ _ => ⟨by decide, fun k _ _ hk hlt =>
      ⟨by omega, by omega⟩⟩⟩

/-- The end of the box overflows. -/
theorem not_drawsGlyph_right : ¬ DrawsGlyph 0 2147483647 0 ⟨0, 0, 640, 480⟩ 0xFF0000FF 8 1 [0x80]
    (filledWith 0) := fun h =>
  absurd (fits_of_drawsGlyph rfl h (by decide) (by decide)).1.1 (by decide)

end Nolrem.Vga
