import Mathlib.Data.List.GetD
import Nolrem.Vga.Glyph

/-!
# Drawing a bitmap

`VGABitmapBlit` of `kernel/CLIPDRAW/driver/vga16/bitmap_blit.c`, for the bitmaps that
`VGACreateCompatibleBitmap` makes: four planes one after another, with a bit for each pixel.
-/

namespace Nolrem.Vga

open Nolrem.Lib

/-! ## The code -/

/--
`struct compat_bitmap`, with the plane data of its storage. The plane data is in memory as a whole,
and the stride was computed when it was allocated.
-/
structure CompatBitmap where
  width : Int
  height : Int
  planes : List (BitVec 8)
  width_pos : 0 < width
  height_pos : 0 < height
  length_planes : (planes.length : Int) = 4 * ((width + 7) / 8 * height)
  length_lt : planes.length < 4294967296
  width_le : width + 7 ≤ 2147483647

namespace CompatBitmap

variable (bmp : CompatBitmap)

/-- `plane_stride` -/
def stride : Int := (bmp.width + 7) / 8

/-- `plane_size` -/
def planeSize : Int := bmp.stride * bmp.height

/-- The bit of plane `p` for the pixel at (`x`, `y`) -/
def bit (p : Nat) (x y : Int) : Bool :=
  (bmp.planes.getD (p * bmp.planeSize + y * bmp.stride + x / 8).toNat 0).getLsbD
    (7 - x % 8).toNat

end CompatBitmap

/-- An extent of the source and where it goes, along one of the axes. -/
structure Extent where
  src : Int
  size : Int
  dest : Int

/-- The clipping against the bitmap -/
def Extent.clipSource (e : Extent) (bound : Int) : Extent :=
  let e := if e.src < 0 then ⟨0, e.size + e.src, e.dest - e.src⟩ else e
  if e.src + e.size > bound then ⟨e.src, bound - e.src, e.dest⟩ else e

/-- The clipping against the screen -/
def Extent.clipScreen (e : Extent) (bound : Int) : Extent :=
  let e := if e.dest < 0 then ⟨e.src - e.dest, e.size + e.dest, 0⟩ else e
  if e.dest + e.size > bound then ⟨e.src, bound - e.dest, e.dest⟩ else e

/-- `size_t` -/
def sizeT (n : Int) : Int := n % 4294967296

/-- The arguments of the loops, after the clipping -/
structure Blit where
  bmp : CompatBitmap
  x : Extent
  y : Extent

namespace Blit

variable (c : Blit)

/-- `BlitPlaneRange`: the offset of the range in the planes, and its length. -/
def planeRange (p : Nat) : Int × Int :=
  let lo := sizeT (p * c.bmp.planeSize + c.y.src * c.bmp.stride + c.x.src / 8)
  let hi := sizeT (p * c.bmp.planeSize + (c.y.src + c.y.size - 1) * c.bmp.stride +
    (c.x.src + c.x.size - 1) / 8)
  (lo, sizeT (hi - lo + 1))

/--
The calls of `WireVirt` from plane `p` on, until one fails: how many succeed, and what is wired then.
-/
def wirePlanes (wire : Nat → Bool) : Nat → Nat → List (Int × Int) → Nat × List (Int × Int)
  | 0, p, wired => (p, wired)
  | n + 1, p, wired =>
    if wire p then wirePlanes wire n (p + 1) (c.planeRange p :: wired) else (p, wired)

/-- The calls of `UnwireVirt` from plane `p` on, `none` if one is not for a range that is wired. -/
def unwirePlanes : Nat → Nat → List (Int × Int) → Option (List (Int × Int))
  | 0, _, wired => some wired
  | n + 1, p, wired =>
    if c.planeRange p ∈ wired then unwirePlanes n (p + 1) (wired.erase (c.planeRange p)) else none

/-- A byte of the planes, `none` outside of them and outside of the ranges that are wired -/
def readByte (wired : List (Int × Int)) (i : Int) : Option (BitVec 8) :=
  if 0 ≤ i ∧ wired.any fun r => r.1 ≤ i ∧ i < r.1 + r.2 then c.bmp.planes[i.toNat]? else none

/-- The inner loop over the columns of a byte: `col`, `dest_byte` and `touched_mask` after it. -/
def gather (wired : List (Int × Int)) (srcRow dbIndex : Int) :
    Nat → Int → BitVec 8 → BitVec 8 → Option (Int × BitVec 8 × BitVec 8)
  | 0, col, destByte, touched => some (col, destByte, touched)
  | n + 1, col, destByte, touched =>
    if (c.x.dest + col) / 8 = dbIndex then do
      let dbit := 1#8 <<< (7 - (c.x.dest + col) % 8).toNat
      let srcByte ← c.readByte wired (srcRow + (c.x.src + col) / 8)
      let srcBit := decide ((srcByte >>> (7 - (c.x.src + col) % 8).toNat &&& 1) = 1)
      gather wired srcRow dbIndex n (col + 1) (if srcBit then destByte ||| dbit else destByte)
        (touched ||| dbit)
    else some (col, destByte, touched)

end Blit

/-- The bit mask is set if it is another one than before. -/
def Masked.setGcMask (st : Masked) (mask : BitVec 8) : Masked :=
  if st.currentMask ≠ mask.toNat then ⟨outGc 8 mask st.adapter, mask.toNat⟩ else st

/-- `outb(VGA_SEQ_INDEX, index); outb(VGA_SEQ_DATA, val);` -/
def outSeq (index val : BitVec 8) (s : Adapter) : Adapter := (s.outb 0x3C4 index).outb 0x3C5 val

namespace Blit

variable (c : Blit)

/-- The loop over the bytes of a row, `none` if it is not at its end after the rounds -/
def drawBytes (wired : List (Int × Int)) (srcRow dstRow : Int) :
    Nat → Int → Masked → Option Masked
  | fuel + 1, col, st =>
    if col < c.x.size then do
      let dbIndex := (c.x.dest + col) / 8
      let (col, destByte, touched) ←
        c.gather wired srcRow dbIndex (c.x.size - col).toNat col 0 0
      let st := st.setGcMask touched
      drawBytes wired srcRow dstRow fuel col
        { st with adapter := st.adapter.touch (dstRow + dbIndex) destByte }
    else some st
  | 0, col, st => if col < c.x.size then none else some st

/-- The loop over the rows of plane `p` from `row` on; `n` rows are left. -/
def drawRows (wired : List (Int × Int)) (p : Nat) : Nat → Int → Masked → Option Masked
  | 0, _, st => some st
  | n + 1, row, st => do
    let st ← c.drawBytes wired (p * c.bmp.planeSize + (c.y.src + row) * c.bmp.stride)
      ((c.y.dest + row) * 80) c.x.size.toNat 0 st
    drawRows wired p n (row + 1) st

/-- The loop over the planes from `p` on; `n` planes are left. -/
def drawPlanes (wired : List (Int × Int)) : Nat → Nat → Adapter → Option Adapter
  | 0, _, s => some s
  | n + 1, p, s => do
    let st ← c.drawRows wired p c.y.size.toNat 0 ⟨outSeq 2 (1#8 <<< p) s, -1⟩
    drawPlanes wired n (p + 1) st.adapter

/--
`VGABitmapBlit` after the clipping: the adapter, and what is still wired at the end. `wire` says
whether the call of `WireVirt` for a plane succeeds.
-/
def run (wire : Nat → Bool) (s : Adapter) : Option (Adapter × List (Int × Int)) :=
  let (count, wired) := c.wirePlanes wire 4 0 []
  if count < 4 then do
    let wired ← c.unwirePlanes count 0 wired
    some (s, wired)
  else do
    let s ← c.drawPlanes wired 4 0 (outGc 3 0 (outGc 1 0 (outGc 5 0 s)))
    let wired ← c.unwirePlanes 4 0 wired
    some (outSeq 2 0x0F (outGc 8 0xFF (outGc 1 0 s)), wired)

end Blit

/-- `VGABitmapBlit` -/
def vgaBitmapBlit (bmp : CompatBitmap) (src : Rect) (dest : Int × Int) (wire : Nat → Bool)
    (s : Adapter) : Option (Adapter × List (Int × Int)) :=
  if src.w ≤ 0 ∨ src.h ≤ 0 then some (s, [])
  else
    let x := Extent.clipSource ⟨src.x, src.w, dest.1⟩ bmp.width
    let y := Extent.clipSource ⟨src.y, src.h, dest.2⟩ bmp.height
    if x.size ≤ 0 ∨ y.size ≤ 0 then some (s, [])
    else
      let x := x.clipScreen 640
      let y := y.clipScreen 480
      if x.size ≤ 0 ∨ y.size ≤ 0 then some (s, [])
      else Blit.run ⟨bmp, x, y⟩ wire s

/-! ## Clipping -/

/-- The place of the screen is one of the clipped extent. -/
def Extent.Has (e : Extent) (pos : Int) : Prop := e.dest ≤ pos ∧ pos < e.dest + e.size

section Clip

variable {e : Extent} {bound screen : Int}

/-- Clipping does not move the source against the destination. -/
theorem Extent.has_clip (pos : Int) :
    ((e.clipSource bound).clipScreen screen).Has pos ↔ e.Has pos ∧
      (0 ≤ pos - e.dest + e.src ∧ pos - e.dest + e.src < bound) ∧ 0 ≤ pos ∧ pos < screen := by
  unfold Extent.Has Extent.clipScreen Extent.clipSource
  grind

theorem Extent.offset_clip : ((e.clipSource bound).clipScreen screen).src -
    ((e.clipSource bound).clipScreen screen).dest = e.src - e.dest := by
  unfold Extent.clipScreen Extent.clipSource
  grind

/-- What is left lies in the bitmap and on the screen. -/
structure Extent.Inside (e : Extent) (bound screen : Int) : Prop where
  size_pos : 0 < e.size
  src_nonneg : 0 ≤ e.src
  src_le : e.src + e.size ≤ bound
  dest_nonneg : 0 ≤ e.dest
  dest_le : e.dest + e.size ≤ screen

theorem Extent.inside_clip (h : 0 < ((e.clipSource bound).clipScreen screen).size) :
    ((e.clipSource bound).clipScreen screen).Inside bound screen := by
  constructor
  · exact h
  all_goals
    unfold Extent.clipScreen Extent.clipSource at *
    grind

end Clip

/-! ## The planes -/

/-- What is left of the rectangle lies in the bitmap and on the screen. -/
structure Blit.Inside (c : Blit) : Prop where
  x : c.x.Inside c.bmp.width 640
  y : c.y.Inside c.bmp.height 480

section Planes

variable {c : Blit} {p : Nat} {wired : List (Int × Int)}

theorem CompatBitmap.index_lt (bmp : CompatBitmap) (hp : p < 4) {x y : Int}
    (hx : 0 ≤ x ∧ x < bmp.width) (hy : 0 ≤ y ∧ y < bmp.height) :
    0 ≤ p * bmp.planeSize + y * bmp.stride + x / 8 ∧
      p * bmp.planeSize + y * bmp.stride + x / 8 < bmp.planes.length := by
  have hstride : 0 < bmp.stride ∧ x / 8 < bmp.stride := by
    have := bmp.width_pos
    unfold CompatBitmap.stride
    omega
  have hsize : 0 ≤ bmp.planeSize := Int.mul_nonneg hstride.1.le bmp.height_pos.le
  have hrow : 0 ≤ y * bmp.stride := Int.mul_nonneg hy.1 hstride.1.le
  have hlast : (y + 1) * bmp.stride ≤ bmp.planeSize := by
    unfold CompatBitmap.planeSize
    rw [Int.mul_comm bmp.stride]
    exact Int.mul_le_mul_of_nonneg_right (by omega) hstride.1.le
  have hplane : 0 ≤ p * bmp.planeSize := Int.mul_nonneg (by omega) hsize
  have hplanes : ((p : Int) + 1) * bmp.planeSize ≤ 4 * bmp.planeSize :=
    Int.mul_le_mul_of_nonneg_right (by omega) hsize
  have hlength : (bmp.planes.length : Int) = 4 * bmp.planeSize := bmp.length_planes
  rw [Int.add_mul, Int.one_mul] at hlast hplanes
  omega

theorem sizeT_of_lt {n : Int} (h : 0 ≤ n ∧ n < 4294967296) : sizeT n = n :=
  Int.emod_eq_of_lt h.1 h.2

/-- The range of a plane does not wrap around, and has every byte that is read. -/
theorem readByte_eq (h : c.Inside) (hp : p < 4) (hwired : c.planeRange p ∈ wired) {x y : Int}
    (hx : c.x.src ≤ x ∧ x < c.x.src + c.x.size) (hy : c.y.src ≤ y ∧ y < c.y.src + c.y.size) :
    c.readByte wired (p * c.bmp.planeSize + y * c.bmp.stride + x / 8) = some
      (c.bmp.planes.getD (p * c.bmp.planeSize + y * c.bmp.stride + x / 8).toNat 0) := by
  obtain ⟨_, hsx, hxw, -, -⟩ := h.x
  obtain ⟨_, hsy, hyh, -, -⟩ := h.y
  have hlt := c.bmp.length_lt
  have hlo := c.bmp.index_lt hp (x := c.x.src) (y := c.y.src) (by omega) (by omega)
  have hhi := c.bmp.index_lt hp (x := c.x.src + c.x.size - 1) (y := c.y.src + c.y.size - 1)
    (by omega) (by omega)
  have hi := c.bmp.index_lt hp (x := x) (y := y) (by omega) (by omega)
  have hstride : 0 ≤ c.bmp.stride := by
    have := c.bmp.width_pos
    unfold CompatBitmap.stride
    omega
  have hfirst : c.y.src * c.bmp.stride ≤ y * c.bmp.stride :=
    Int.mul_le_mul_of_nonneg_right hy.1 hstride
  have hlast : y * c.bmp.stride ≤ (c.y.src + c.y.size - 1) * c.bmp.stride :=
    Int.mul_le_mul_of_nonneg_right (by omega) hstride
  have hcovers : (wired.any fun r =>
      r.1 ≤ p * c.bmp.planeSize + y * c.bmp.stride + x / 8 ∧
        p * c.bmp.planeSize + y * c.bmp.stride + x / 8 < r.1 + r.2) = true := by
    refine List.any_eq_true.mpr ⟨_, hwired, decide_eq_true ?_⟩
    unfold Blit.planeRange
    dsimp only
    rw [sizeT_of_lt ⟨hlo.1, by omega⟩, sizeT_of_lt ⟨hhi.1, by omega⟩,
      sizeT_of_lt ⟨by omega, by omega⟩]
    omega
  have hindex : (p * c.bmp.planeSize + y * c.bmp.stride + x / 8).toNat < c.bmp.planes.length := by
    omega
  unfold Blit.readByte
  rw [if_pos ⟨hi.1, hcovers⟩, List.getElem?_eq_getElem hindex, List.getD_eq_getElem _ _ hindex]

theorem wirePlanes_spec (wire : Nat → Bool) (n : Nat) {p : Nat}
    (hperm : wired.Perm ((List.range p).map c.planeRange)) :
    (c.wirePlanes wire n p wired).1 ≤ p + n ∧
      ((c.wirePlanes wire n p wired).1 = p + n ↔ ∀ q, p ≤ q → q < p + n → wire q = true) ∧
      (c.wirePlanes wire n p wired).2.Perm
        ((List.range (c.wirePlanes wire n p wired).1).map c.planeRange) := by
  induction n generalizing p wired with
  | zero => exact ⟨le_refl p, ⟨fun _ q _ _ => by omega, fun _ => rfl⟩, hperm⟩
  | succ n ih =>
    rw [Blit.wirePlanes]
    split_ifs with hwire
    · have hnext : (c.planeRange p :: wired).Perm ((List.range (p + 1)).map c.planeRange) := by
        rw [List.range_succ, List.map_append]
        exact (hperm.cons _).trans (List.perm_append_singleton _ _).symm
      obtain ⟨hle, hall, hspec⟩ := ih hnext
      refine ⟨by omega, ?_, hspec⟩
      rw [show p + (n + 1) = p + 1 + n by omega, hall]
      constructor
      · intro h q hq hlt
        rcases Nat.lt_or_eq_of_le hq with hless | rfl
        · exact h q hless hlt
        · exact hwire
      · exact fun h q hq hlt => h q (by omega) hlt
    · refine ⟨by omega, ⟨fun h => ?_, fun h => ?_⟩, hperm⟩
      · dsimp only at h
        omega
      · exact absurd (h p (le_refl p) (by omega)) hwire

/-- Each range that is wired is unwired once, and nothing is left. -/
theorem unwirePlanes_spec (n : Nat) {p : Nat}
    (hperm : wired.Perm ((List.range' p n).map c.planeRange)) :
    c.unwirePlanes n p wired = some [] := by
  induction n generalizing p wired with
  | zero => rw [Blit.unwirePlanes, List.perm_nil.mp hperm]
  | succ n ih =>
    rw [List.range'_succ, List.map_cons] at hperm
    have hrest := hperm.erase (c.planeRange p)
    rw [List.erase_cons_head] at hrest
    rw [Blit.unwirePlanes, if_pos (hperm.mem_iff.mpr List.mem_cons_self)]
    exact ih hrest

end Planes

/-! ## A byte of the screen -/

section Gather

variable {c : Blit}

theorem getLsbD_bit {m k : Nat} (hm : m < 8) (hk : k < 8) :
    (1#8 <<< m).getLsbD k = decide (k = m) := by
  have hall : ∀ m < 8, ∀ k < 8, (1#8 <<< m).getLsbD k = decide (k = m) := by decide
  exact hall m hm k hk

theorem shiftRight_and_one (m : Nat) (b : BitVec 8) :
    decide ((b >>> m &&& 1) = 1) = b.getLsbD m := by
  have hone : (1 : BitVec 8) = 1#8 := rfl
  have hbit : b >>> m &&& 1 = (BitVec.ofBool (b.getLsbD m)).setWidth 8 := by
    rw [hone, BitVec.and_one_eq_setWidth_ofBool_getLsbD, BitVec.getLsbD_ushiftRight, Nat.add_zero]
  rw [hbit]
  cases b.getLsbD m <;> rfl

/-- The column of the rectangle that is bit `k` of the byte `db` of a row -/
def Blit.column (c : Blit) (db : Int) (k : Nat) : Int := 8 * db + (7 - k) - c.x.dest

/-- The columns from `start` to `col` are gathered; `bit` is what they are in the source. -/
structure Blit.Gathered (c : Blit) (bit : Int → Bool) (db start col : Int)
    (destByte touched : BitVec 8) : Prop where
  touched_iff : ∀ k < 8, touched.getLsbD k = true ↔ start ≤ c.column db k ∧ c.column db k < col
  dest_eq : ∀ k < 8, destByte.getLsbD k = (touched.getLsbD k && bit (c.column db k))

theorem gathered_step {bit : Int → Bool} {db start col : Int} {destByte touched : BitVec 8}
    (h : c.Gathered bit db start col destByte touched) (hstart : start ≤ col)
    (hcol : (c.x.dest + col) / 8 = db) :
    c.Gathered bit db start (col + 1)
      (if bit col then destByte ||| 1#8 <<< (7 - (c.x.dest + col) % 8).toNat else destByte)
      (touched ||| 1#8 <<< (7 - (c.x.dest + col) % 8).toNat) := by
  have hm : (7 - (c.x.dest + col) % 8).toNat < 8 := by omega
  have hcolumn {k : Nat} (hk : k < 8) :
      k = (7 - (c.x.dest + col) % 8).toNat ↔ c.column db k = col := by
    unfold Blit.column
    omega
  constructor
  · intro k hk
    rw [BitVec.getLsbD_or, getLsbD_bit hm hk, Bool.or_eq_true, h.touched_iff k hk,
      decide_eq_true_iff, hcolumn hk]
    omega
  · intro k hk
    rw [BitVec.getLsbD_or, getLsbD_bit hm hk]
    have hold := h.dest_eq k hk
    by_cases hlast : k = (7 - (c.x.dest + col) % 8).toNat
    · have hnew := (hcolumn hk).mp hlast
      have hnot : touched.getLsbD k = false := by
        rw [Bool.eq_false_iff]
        intro ht
        have := ((h.touched_iff k hk).mp ht).2
        omega
      rw [hnot, Bool.false_and] at hold
      rw [hnew]
      split_ifs with hbit
      · rw [BitVec.getLsbD_or, getLsbD_bit hm hk, decide_eq_true hlast, hbit]
        simp
      · rw [hold, Bool.eq_false_iff.mpr hbit, Bool.and_false]
    · rw [decide_eq_false hlast, Bool.or_false]
      split_ifs
      · rw [BitVec.getLsbD_or, getLsbD_bit hm hk, decide_eq_false hlast, Bool.or_false, hold]
      · exact hold

/-- The loop ends at the end of the byte or of the row. -/
theorem gather_spec {wired : List (Int × Int)} {srcRow db start : Int} {bit : Int → Bool} {n : Nat}
    {col : Int} {destByte touched : BitVec 8} (hn : col + n = c.x.size)
    (hread : ∀ j, start ≤ j ∧ j < c.x.size → ∃ byte : BitVec 8,
      c.readByte wired (srcRow + (c.x.src + j) / 8) = some byte ∧
        byte.getLsbD (7 - (c.x.src + j) % 8).toNat = bit j)
    (hstart : start ≤ col) (hbyte : c.x.dest + col ≤ 8 * db + 8)
    (h : c.Gathered bit db start col destByte touched) :
    ∃ col' destByte' touched', c.gather wired srcRow db n col destByte touched =
        some (col', destByte', touched') ∧
      c.Gathered bit db start col' destByte' touched' ∧
        (col ≤ col' ∧ col' ≤ c.x.size ∧ c.x.dest + col' ≤ 8 * db + 8) ∧
        (col' = c.x.size ∨ (c.x.dest + col') / 8 ≠ db) := by
  induction n generalizing col destByte touched with
  | zero => exact ⟨_, _, _, rfl, h, by omega, by omega⟩
  | succ n ih =>
    rw [Blit.gather]
    split_ifs with hcol
    · obtain ⟨byte, hbyte, hbit⟩ := hread col (by omega)
      rw [hbyte, Option.bind_eq_bind, Option.bind_some]
      dsimp only
      rw [shiftRight_and_one, hbit]
      obtain ⟨col', d', t', hrest, hgathered, hcol', hend⟩ := ih (by omega) (by omega)
        (by omega) (gathered_step h hstart hcol)
      exact ⟨col', d', t', hrest, hgathered, by omega, hend⟩
    · exact ⟨_, _, _, rfl, h, by omega, Or.inr hcol⟩

end Gather

/-! ## The screen -/

/-- The bits of the pixels, plane by plane. -/
def planeBits (vram : Int → Fin 4 → BitVec 8) (j : (Int × Nat) × Fin 4) : Bool := bits vram j.1 j.2

/-- The registers while plane `p` is drawn, and what is known of `current_mask` -/
structure PlaneReady (p : Nat) (st : Masked) : Prop where
  mapMask : st.adapter.regs.mapMask = 1#8 <<< p
  dataRotate : st.adapter.regs.dataRotate = 0
  mode : st.adapter.regs.mode = 0
  enableSetReset : st.adapter.regs.enableSetReset = 0
  mask : ∀ m : BitVec 8, st.currentMask = m.toNat → st.adapter.regs.bitMask = m

section Screen

variable {c : Blit} {p : Nat} {st : Masked} {wired : List (Int × Int)}

theorem PlaneReady.setGcMask (h : PlaneReady p st) (mask : BitVec 8) :
    PlaneReady p (st.setGcMask mask) ∧ (st.setGcMask mask).adapter.regs.bitMask = mask ∧
      (st.setGcMask mask).adapter.vram = st.adapter.vram := by
  unfold Masked.setGcMask
  split_ifs with hmask
  · refine ⟨⟨?_, ?_, ?_, ?_, ?_⟩, ?_, rfl⟩ <;> dsimp only <;> rw [outGc_eight]
    · exact h.mapMask
    · exact h.dataRotate
    · exact h.mode
    · exact h.enableSetReset
    · intro m hm
      exact BitVec.eq_of_toNat_eq (Int.natCast_inj.mp hm)
  · exact ⟨h, h.mask mask (not_not.mp hmask), rfl⟩

/-- A write in mode 0 without set/reset: in one plane, the bits of the mask are those of the byte. -/
theorem touch_plane (h : PlaneReady p st) (hp : p < 4) (a : Int) (val : BitVec 8) :
    (st.adapter.touch a val).regs = st.adapter.regs ∧
      Affects (fun j _ => val.getLsbD j.1.2)
        (fun j => (j.2 : Nat) = p ∧ InByte a st.adapter.regs.bitMask j.1)
        (planeBits st.adapter.vram) (planeBits (st.adapter.touch a val).vram) := by
  have hplane (q : Fin 4) : st.adapter.regs.mapMask.getLsbD q = true ↔ (q : Nat) = p := by
    rw [h.mapMask, getLsbD_bit (by omega) (by omega), decide_eq_true_iff]
  have hwritten (q : Fin 4) (latch : BitVec 8) :
      st.adapter.regs.written val q latch = st.adapter.regs.masked val latch := by
    have hrotated : st.adapter.regs.rotated val = val := by
      have hall : ∀ v : BitVec 8, v.rotateRight (0 &&& 7 : BitVec 8).toNat = v := by
        decide +kernel
      unfold Regs.rotated
      rw [h.dataRotate]
      exact hall val
    unfold Regs.written
    rw [h.mode, h.enableSetReset, hrotated]
    show st.adapter.regs.masked (if (0#8).getLsbD q then _ else _) latch = _
    rw [if_neg (by simp)]
  refine ⟨rfl, fun ⟨⟨b, k⟩, q⟩ => ⟨?_, ?_⟩⟩
  · rintro ⟨hq, rfl, hk⟩
    show (if b = b ∧ st.adapter.regs.mapMask.getLsbD q then
      st.adapter.regs.written val q (st.adapter.vram b q) else st.adapter.vram b q).getLsbD k = _
    rw [if_pos ⟨rfl, (hplane q).mpr hq⟩, hwritten,
      getLsbD_masked h.dataRotate (BitVec.lt_of_getLsbD hk), if_pos hk]
  · intro hno
    show (if b = a ∧ st.adapter.regs.mapMask.getLsbD q then
      st.adapter.regs.written val q (st.adapter.vram a q) else st.adapter.vram b q).getLsbD k =
        (st.adapter.vram b q).getLsbD k
    split_ifs with hb
    · obtain ⟨rfl, hq⟩ := hb
      by_cases hlt : k < 8
      · rw [hwritten, getLsbD_masked h.dataRotate hlt,
          if_neg fun hk => hno ⟨(hplane q).mp hq, rfl, hk⟩]
      · rw [BitVec.getLsbD_of_ge _ _ (by omega), BitVec.getLsbD_of_ge _ _ (by omega)]
    · rfl

/-- The bit of the bitmap for a bit of the screen -/
def Blit.target (c : Blit) (j : (Int × Nat) × Fin 4) : Bool :=
  c.bmp.bit j.2 (pixelX j.1 - c.x.dest + c.x.src) (pixelY j.1 - c.y.dest + c.y.src)

/-- The bits of plane `p` in a row of the rectangle, from column `col` on -/
def Blit.InRow (c : Blit) (p : Nat) (row col : Int) (j : (Int × Nat) × Fin 4) : Prop :=
  (j.2 : Nat) = p ∧ j.1.2 < 8 ∧ pixelY j.1 = c.y.dest + row ∧
    col ≤ pixelX j.1 - c.x.dest ∧ pixelX j.1 - c.x.dest < c.x.size

/-- The induction is on the rounds; each of them draws a byte. -/
theorem drawBytes_affects (hc : c.Inside) (hp : p < 4) (hwired : c.planeRange p ∈ wired) {row : Int}
    (hrow : 0 ≤ row ∧ row < c.y.size) (fuel : Nat) {col : Int} (hcol : 0 ≤ col)
    (hfuel : c.x.size ≤ col + fuel) (h : PlaneReady p st) :
    ∃ st', c.drawBytes wired (p * c.bmp.planeSize + (c.y.src + row) * c.bmp.stride)
        ((c.y.dest + row) * 80) fuel col st = some st' ∧ PlaneReady p st' ∧
      Affects (fun j _ => c.target j) (c.InRow p row col) (planeBits st.adapter.vram)
        (planeBits st'.adapter.vram) := by
  induction fuel generalizing col st with
  | zero =>
    rw [Blit.drawBytes, if_neg (by omega)]
    exact ⟨st, rfl, h, Affects.refl fun j hj => absurd hj.2.2.2 (by omega)⟩
  | succ fuel ih =>
    rw [Blit.drawBytes]
    split_ifs with hlt
    · have hread (j : Int) (hj : col ≤ j ∧ j < c.x.size) : ∃ byte : BitVec 8,
          c.readByte wired (p * c.bmp.planeSize + (c.y.src + row) * c.bmp.stride +
            (c.x.src + j) / 8) = some byte ∧
          byte.getLsbD (7 - (c.x.src + j) % 8).toNat =
            c.bmp.bit p (c.x.src + j) (c.y.src + row) :=
        ⟨_, readByte_eq hc hp hwired (by omega) (by omega), rfl⟩
      have hstart : c.Gathered (fun j => c.bmp.bit p (c.x.src + j) (c.y.src + row))
          ((c.x.dest + col) / 8) col col 0 0 :=
        ⟨fun k _ => by simp, fun k _ => by simp⟩
      obtain ⟨col', destByte, touched, hgather, hgathered, hcol', hend⟩ := gather_spec
        (n := (c.x.size - col).toNat) (by omega) hread (Int.le_refl col) (by omega)
        hstart
      obtain ⟨hready, hmask, hvram⟩ := h.setGcMask touched
      obtain ⟨hregs, htouch⟩ := touch_plane hready hp
        ((c.y.dest + row) * 80 + (c.x.dest + col) / 8) destByte
      have hdest := hc.x.dest_nonneg
      have hdest' := hc.x.dest_le
      rw [hmask, hvram] at htouch
      have hfirst : Affects (fun j _ => c.target j)
          (fun j => (j.2 : Nat) = p ∧ j.1.2 < 8 ∧ pixelY j.1 = c.y.dest + row ∧
            col ≤ pixelX j.1 - c.x.dest ∧ pixelX j.1 - c.x.dest < col')
          (planeBits st.adapter.vram) (planeBits ((st.setGcMask touched).adapter.touch
            ((c.y.dest + row) * 80 + (c.x.dest + col) / 8) destByte).vram) := by
        refine (htouch.congr_fun (g := fun j _ => c.target j) ?_).congr ?_
        · rintro ⟨⟨a, k⟩, q⟩ ⟨hq, ha, hk⟩ _
          have hlt := BitVec.lt_of_getLsbD hk
          dsimp only at hq ha hk hlt ⊢
          rw [hgathered.dest_eq k hlt, hk, Bool.true_and]
          unfold Blit.target Blit.column pixelX pixelY
          dsimp only
          rw [hq]
          congr 1 <;> omega
        · rintro ⟨⟨a, k⟩, q⟩
          unfold InByte pixelX pixelY
          dsimp only
          constructor
          · rintro ⟨hq, ha, hk⟩
            have hlt := BitVec.lt_of_getLsbD hk
            have hcols := (hgathered.touched_iff k hlt).mp hk
            unfold Blit.column at hcols
            exact ⟨hq, hlt, by omega, by omega, by omega⟩
          · rintro ⟨hq, hlt, hy, hx⟩
            have hbyte : a % 80 = (c.x.dest + col) / 8 := by omega
            refine ⟨hq, by omega, (hgathered.touched_iff k hlt).mpr ?_⟩
            unfold Blit.column
            omega
      obtain ⟨st', hrest, hready', haff⟩ := @ih
        ⟨(st.setGcMask touched).adapter.touch
          ((c.y.dest + row) * 80 + (c.x.dest + col) / 8) destByte,
          (st.setGcMask touched).currentMask⟩ col' (by omega) (by omega)
        ⟨by rw [hregs]; exact hready.mapMask, by rw [hregs]; exact hready.dataRotate,
          by rw [hregs]; exact hready.mode, by rw [hregs]; exact hready.enableSetReset,
          fun m hm => by rw [hregs]; exact hready.mask m hm⟩
      dsimp only
      rw [hgather, Option.bind_eq_bind, Option.bind_some]
      refine ⟨st', hrest, hready', (hfirst.comp haff fun _ _ _ _ => rfl).congr fun j => ?_⟩
      unfold Blit.InRow
      constructor
      · rintro (⟨hq, hlt, hy, hx⟩ | ⟨hq, hlt, hy, hx⟩)
        · exact ⟨hq, hlt, hy, by omega⟩
        · exact ⟨hq, hlt, hy, by omega⟩
      · rintro ⟨hq, hlt, hy, hx⟩
        rcases Int.lt_or_le (pixelX j.1 - c.x.dest) col' with hless | hge
        · exact Or.inl ⟨hq, hlt, hy, by omega⟩
        · exact Or.inr ⟨hq, hlt, hy, by omega⟩
    · exact ⟨st, rfl, h, Affects.refl fun j hj => absurd hj.2.2.2 (by omega)⟩

/-- The induction is on the rows. -/
theorem blitRows_affects (hc : c.Inside) (hp : p < 4) (hwired : c.planeRange p ∈ wired) (n : Nat)
    {row : Int} (hrow : 0 ≤ row ∧ row + n ≤ c.y.size) (h : PlaneReady p st) :
    ∃ st', c.drawRows wired p n row st = some st' ∧ PlaneReady p st' ∧
      Affects (fun j _ => c.target j) (fun j => ∃ y, (row ≤ y ∧ y < row + n) ∧ c.InRow p y 0 j)
        (planeBits st.adapter.vram) (planeBits st'.adapter.vram) := by
  induction n generalizing row st with
  | zero => exact ⟨st, rfl, h, Affects.refl fun j ⟨y, hy, _⟩ => absurd hy (by omega)⟩
  | succ n ih =>
    have hsize := hc.x.size_pos
    obtain ⟨st1, hbytes, hready, hfirst⟩ := drawBytes_affects hc hp hwired
      (show 0 ≤ row ∧ row < c.y.size by omega) c.x.size.toNat (Int.le_refl 0) (by omega) h
    obtain ⟨st', hrest, hready', haff⟩ := ih
      (show 0 ≤ row + 1 ∧ row + 1 + n ≤ c.y.size by omega) hready
    rw [Blit.drawRows, hbytes, Option.bind_eq_bind, Option.bind_some]
    refine ⟨st', hrest, hready', (hfirst.comp haff fun _ _ _ _ => rfl).congr fun j => ?_⟩
    constructor
    · rintro (hj | ⟨y, hy, hj⟩)
      · exact ⟨row, by omega, hj⟩
      · exact ⟨y, by omega, hj⟩
    · rintro ⟨y, hy, hj⟩
      rcases Int.lt_or_eq_of_le hy.1 with hlt | rfl
      · exact Or.inr ⟨y, by omega, hj⟩
      · exact Or.inl hj

/-- The registers between two planes -/
structure BlitReady (r : Regs) : Prop where
  dataRotate : r.dataRotate = 0
  mode : r.mode = 0
  enableSetReset : r.enableSetReset = 0

theorem outSeq_two (val : BitVec 8) (s : Adapter) :
    (outSeq 2 val s).regs = { s.regs with seqIndex := 2, mapMask := val } := by
  simp [outSeq, Adapter.outb, Regs.outb]

/-- The bits of the rectangle in plane `p` -/
def Blit.InPlane (c : Blit) (p : Nat) (j : (Int × Nat) × Fin 4) : Prop :=
  (j.2 : Nat) = p ∧ j.1.2 < 8 ∧ c.x.Has (pixelX j.1) ∧ c.y.Has (pixelY j.1)

/-- The induction is on the planes. -/
theorem drawPlanes_affects (hc : c.Inside) (n : Nat) {p : Nat} (hn : p + n ≤ 4)
    (hwired : ∀ q < 4, c.planeRange q ∈ wired) {s : Adapter} (h : BlitReady s.regs) :
    ∃ s', c.drawPlanes wired n p s = some s' ∧ BlitReady s'.regs ∧
      Affects (fun j _ => c.target j) (fun j => ∃ q, (p ≤ q ∧ q < p + n) ∧ c.InPlane q j)
        (planeBits s.vram) (planeBits s'.vram) := by
  induction n generalizing p s with
  | zero => exact ⟨s, rfl, h, Affects.refl fun j ⟨q, hq, _⟩ => absurd hq (by omega)⟩
  | succ n ih =>
    have hstart : PlaneReady p ⟨outSeq 2 (1#8 <<< p) s, -1⟩ := by
      refine ⟨?_, ?_, ?_, ?_, fun m hm => ?_⟩
      case refine_5 =>
        have hneg : (-1 : Int) = m.toNat := hm
        omega
      all_goals
        dsimp only
        rw [outSeq_two]
      · exact h.dataRotate
      · exact h.mode
      · exact h.enableSetReset
    have hsize := hc.y.size_pos
    obtain ⟨st, hrows, hready, hfirst⟩ := blitRows_affects hc (show p < 4 by omega)
      (hwired p (by omega)) c.y.size.toNat
      (show (0 : Int) ≤ 0 ∧ (0 : Int) + c.y.size.toNat ≤ c.y.size by omega) hstart
    obtain ⟨s', hrest, hready', haff⟩ := ih (p := p + 1) (by omega)
      ⟨hready.dataRotate, hready.mode, hready.enableSetReset⟩
    rw [Blit.drawPlanes, hrows, Option.bind_eq_bind, Option.bind_some]
    refine ⟨s', hrest, hready', (hfirst.comp haff fun _ _ _ _ => rfl).congr fun j => ?_⟩
    unfold Blit.InPlane Blit.InRow Extent.Has
    constructor
    · rintro (⟨y, hy, hq, hlt, hpy, hx⟩ | ⟨q, hq, hj⟩)
      · exact ⟨p, by omega, hq, hlt, by omega, by omega⟩
      · exact ⟨q, by omega, hj⟩
    · rintro ⟨q, hq, hj, hlt, hx, hy⟩
      rcases Nat.lt_or_eq_of_le hq.1 with hnext | rfl
      · exact Or.inr ⟨q, by omega, hj, hlt, hx, hy⟩
      · exact Or.inl ⟨pixelY j.1 - c.y.dest, by omega, hj, hlt, by omega, by omega⟩

end Screen

/-! ## The whole call -/

/-- The four bits of a pixel of a bitmap -/
def CompatBitmap.colour (bmp : CompatBitmap) (x y : Int) : Fin 4 → Bool := fun p => bmp.bit p x y

/-- The pixel is drawn: it belongs to the rectangle, and its source to the bitmap. -/
def Blitted (bmp : CompatBitmap) (src : Rect) (dest : Int × Int) (x y : Int) : Prop :=
  OnScreen x y ∧ InRect dest.1 dest.2 (dest.1 + src.w) (dest.2 + src.h) x y ∧
    InRect 0 0 bmp.width bmp.height (x - dest.1 + src.x) (y - dest.2 + src.y)

/--
A call ends and leaves nothing wired; it draws the rectangle if the planes could be wired, and
nothing otherwise.
-/
def BlitsExactly (bmp : CompatBitmap) (src : Rect) (dest : Int × Int) (wire : Nat → Bool)
    (s : Adapter) : Prop :=
  ∃ s', vgaBitmapBlit bmp src dest wire s = some (s', []) ∧ s'.regs.Resting ∧
    ((∀ p < 4, wire p = true) → Affects
      (fun i _ => bmp.colour (pixelX i - dest.1 + src.x) (pixelY i - dest.2 + src.y))
      (fun i => i.2 < 8 ∧ Blitted bmp src dest (pixelX i) (pixelY i)) (bits s.vram)
      (bits s'.vram)) ∧
    ((∃ p < 4, wire p = false) → s' = s)

section Call

variable {c : Blit} {bmp : CompatBitmap} {src : Rect} {dest : Int × Int} {s : Adapter}

theorem run_spec (wire : Nat → Bool) (hc : c.Inside) (hs : s.regs.Resting) :
    ∃ s', c.run wire s = some (s', []) ∧ s'.regs.Resting ∧
    ((∀ p < 4, wire p = true) → Affects (fun j _ => c.target j) (fun j => ∃ q < 4, c.InPlane q j)
      (planeBits s.vram) (planeBits s'.vram)) ∧
    ((∃ p < 4, wire p = false) → s' = s) := by
  obtain ⟨hle, hall, hperm⟩ := wirePlanes_spec (c := c) wire 4 (p := 0) (List.Perm.refl [])
  unfold Blit.run
  generalize c.wirePlanes wire 4 0 [] = wires at *
  obtain ⟨count, wired⟩ := wires
  dsimp only at *
  rw [List.range_eq_range'] at hperm
  split_ifs with hcount
  · rw [unwirePlanes_spec count hperm, Option.bind_eq_bind, Option.bind_some]
    exact ⟨s, rfl, hs, fun hwire => absurd (hall.mpr fun q _ hq => hwire q (by omega)) (by omega),
      fun _ => rfl⟩
  · have hfour : count = 4 := by omega
    subst hfour
    have hwired (q : Nat) (hq : q < 4) : c.planeRange q ∈ wired :=
      hperm.mem_iff.mpr (List.mem_map_of_mem (List.mem_range'_1.mpr (by omega)))
    have hstart : BlitReady (outGc 3 0 (outGc 1 0 (outGc 5 0 s))).regs := by
      constructor <;> simp [outGc_regs, Regs.outb]
    obtain ⟨s', hdraw, hready, haff⟩ := drawPlanes_affects hc 4 (p := 0) (by omega) hwired hstart
    have hend : (outSeq 2 0x0F (outGc 8 0xFF (outGc 1 0 s'))).regs = { s'.regs with
        seqIndex := 2
        gcIndex := 8
        mapMask := 0x0F
        enableSetReset := 0
        bitMask := 0xFF } := by
      rw [outSeq_two, outGc_eight, outGc_one]
    have hvram : (outSeq 2 0x0F (outGc 8 0xFF (outGc 1 0 s'))).vram = s'.vram := rfl
    rw [outGc_vram, outGc_vram, outGc_vram] at haff
    rw [hdraw, Option.bind_eq_bind, Option.bind_some, unwirePlanes_spec 4 hperm,
      Option.bind_eq_bind, Option.bind_some]
    refine ⟨outSeq 2 0x0F (outGc 8 0xFF (outGc 1 0 s')), rfl, ?_, fun _ => ?_, ?_⟩
    · rw [hend]
      exact ⟨rfl, hready.dataRotate, Or.inl hready.mode⟩
    · rw [hvram]
      refine haff.congr fun j => exists_congr fun q => and_congr_left fun _ => ?_
      omega
    · rintro ⟨q, hq, hfalse⟩
      have htrue := hall.mp rfl q (by omega) (by omega)
      rw [htrue] at hfalse
      exact absurd hfalse Bool.true_eq_false.mp

/-- A call that returns early -/
theorem blitsExactly_of_same {wire : Nat → Bool} (hs : s.regs.Resting)
    (hsame : vgaBitmapBlit bmp src dest wire s = some (s, []))
    (hno : ∀ x y, ¬ Blitted bmp src dest x y) : BlitsExactly bmp src dest wire s :=
  ⟨s, hsame, hs, fun _ => Affects.refl fun _ hi => hno _ _ hi.2, fun _ => rfl⟩

theorem Extent.not_has_of_size {e : Extent} {bound : Int} (h : e.size ≤ 0) (pos : Int) :
    ¬ (e.clipScreen bound).Has pos := by
  unfold Extent.Has Extent.clipScreen
  grind

/-- A pixel is drawn where both extents have it. -/
theorem blitted_iff {x y : Int} : Blitted bmp src dest x y ↔
    (((Extent.mk src.x src.w dest.1).clipSource bmp.width).clipScreen 640).Has x ∧
      (((Extent.mk src.y src.h dest.2).clipSource bmp.height).clipScreen 480).Has y := by
  rw [Extent.has_clip, Extent.has_clip]
  unfold Blitted OnScreen InRect Extent.Has
  dsimp only
  omega

/-- Whatever rectangle of whatever bitmap goes where, and whatever cannot be wired. -/
theorem vgaBitmapBlit_exact (bmp : CompatBitmap) (src : Rect) (dest : Int × Int)
    (wire : Nat → Bool) (hs : s.regs.Resting) : BlitsExactly bmp src dest wire s := by
  by_cases hempty : src.w ≤ 0 ∨ src.h ≤ 0
  · refine blitsExactly_of_same hs ?_ fun x y hp => ?_
    · unfold vgaBitmapBlit
      rw [if_pos hempty]
    · have hin := hp.2.1
      unfold InRect at hin
      omega
  generalize hx : (Extent.mk src.x src.w dest.1).clipSource bmp.width = ex
  generalize hy : (Extent.mk src.y src.h dest.2).clipSource bmp.height = ey
  have hblit : vgaBitmapBlit bmp src dest wire s =
      if ex.size ≤ 0 ∨ ey.size ≤ 0 then some (s, [])
      else if (ex.clipScreen 640).size ≤ 0 ∨ (ey.clipScreen 480).size ≤ 0 then some (s, [])
      else Blit.run ⟨bmp, ex.clipScreen 640, ey.clipScreen 480⟩ wire s := by
    unfold vgaBitmapBlit
    rw [if_neg hempty, hx, hy]
  have hblitted {x y : Int} : Blitted bmp src dest x y ↔
      (ex.clipScreen 640).Has x ∧ (ey.clipScreen 480).Has y := by
    rw [blitted_iff, hx, hy]
  by_cases hsource : ex.size ≤ 0 ∨ ey.size ≤ 0
  · refine blitsExactly_of_same hs (by rw [hblit, if_pos hsource]) fun x y hp => ?_
    obtain ⟨hxin, hyin⟩ := hblitted.mp hp
    rcases hsource with h | h
    · exact Extent.not_has_of_size h x hxin
    · exact Extent.not_has_of_size h y hyin
  by_cases hscreen : (ex.clipScreen 640).size ≤ 0 ∨ (ey.clipScreen 480).size ≤ 0
  · refine blitsExactly_of_same hs (by rw [hblit, if_neg hsource, if_pos hscreen]) fun x y hp => ?_
    obtain ⟨hxin, hyin⟩ := hblitted.mp hp
    unfold Extent.Has at hxin hyin
    omega
  have hinside : Blit.Inside ⟨bmp, ex.clipScreen 640, ey.clipScreen 480⟩ := by
    constructor
    · rw [← hx] at hscreen ⊢
      exact Extent.inside_clip (by omega)
    · rw [← hy] at hscreen ⊢
      exact Extent.inside_clip (by omega)
  have hox : (ex.clipScreen 640).src - (ex.clipScreen 640).dest = src.x - dest.1 := by
    rw [← hx]
    exact Extent.offset_clip
  have hoy : (ey.clipScreen 480).src - (ey.clipScreen 480).dest = src.y - dest.2 := by
    rw [← hy]
    exact Extent.offset_clip
  obtain ⟨s', hrun, hresting, haff, hfail⟩ := run_spec wire hinside hs
  refine ⟨s', by rw [hblit, if_neg hsource, if_neg hscreen, hrun], hresting, fun hwire i => ?_,
    hfail⟩
  have haff := haff hwire
  constructor
  · rintro ⟨hlt, hp⟩
    obtain ⟨hxin, hyin⟩ := hblitted.mp hp
    funext p
    refine ((haff (i, p)).1 ⟨p, p.2, rfl, hlt, hxin, hyin⟩).trans ?_
    unfold Blit.target CompatBitmap.colour
    dsimp only
    congr 1 <;> omega
  · intro hno
    funext p
    refine (haff (i, p)).2 ?_
    rintro ⟨q, -, -, hlt, hxin, hyin⟩
    exact hno ⟨hlt, hblitted.mpr ⟨hxin, hyin⟩⟩

end Call

/-- A bitmap of two rows of ten pixels -/
def smallBitmap : CompatBitmap where
  width := 10
  height := 2
  planes := List.replicate 16 0xA5
  width_pos := by decide
  height_pos := by decide
  length_planes := by decide
  length_lt := by decide
  width_le := by decide

theorem vgaBitmapBlit_exact_small :
    BlitsExactly smallBitmap ⟨-1, 0, 8, 5⟩ (635, -1) (fun p => p ≠ 2) (filledWith 0) :=
  vgaBitmapBlit_exact smallBitmap ⟨-1, 0, 8, 5⟩ (635, -1) _ ⟨rfl, rfl, Or.inl rfl⟩

end Nolrem.Vga
