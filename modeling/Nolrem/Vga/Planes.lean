import Mathlib.Tactic.Linarith
import Nolrem.Lib.Affects

/-!
# The planes of the display adapter

The video memory of the 16-colour mode: four planes behind one address, the latches, and the
registers of `kernel/CLIPDRAW/driver/vga16/vga16.h` that decide what a write does.
-/

namespace Nolrem.Vga

open Nolrem.Lib

/-! ## The adapter -/

/-- The registers of the sequencer and of the graphics controller. -/
structure Regs where
  seqIndex : BitVec 8
  gcIndex : BitVec 8
  /-- Sequencer 2 -/
  mapMask : BitVec 8
  /-- Graphics controller 0 -/
  setReset : BitVec 8
  /-- Graphics controller 1 -/
  enableSetReset : BitVec 8
  /-- Graphics controller 3: how far to rotate, and the function -/
  dataRotate : BitVec 8
  /-- Graphics controller 5 -/
  mode : BitVec 8
  /-- Graphics controller 8 -/
  bitMask : BitVec 8

/-- The memory by address from `VRAM_BASE` and plane, the latches and the registers. -/
structure Adapter where
  vram : Int → Fin 4 → BitVec 8
  latch : Fin 4 → BitVec 8
  regs : Regs

namespace Regs

variable (r : Regs)

/-- `outb` -/
def outb (port : Nat) (val : BitVec 8) : Regs :=
  if port = 0x3C4 then { r with seqIndex := val }
  else if port = 0x3C5 then if r.seqIndex = 2 then { r with mapMask := val } else r
  else if port = 0x3CE then { r with gcIndex := val }
  else if port = 0x3CF then
    if r.gcIndex = 0 then { r with setReset := val }
    else if r.gcIndex = 1 then { r with enableSetReset := val }
    else if r.gcIndex = 3 then { r with dataRotate := val }
    else if r.gcIndex = 5 then { r with mode := val }
    else if r.gcIndex = 8 then { r with bitMask := val }
    else r
  else r

/-- The function of data and latch. -/
def alu (data latch : BitVec 8) : BitVec 8 :=
  match (r.dataRotate >>> 3 &&& 3).toNat with
  | 1 => data &&& latch
  | 2 => data ||| latch
  | 3 => data ^^^ latch
  | _ => data

/-- The bits of the mask come from the data, the others from the latch. -/
def masked (data latch : BitVec 8) : BitVec 8 :=
  (r.alu data latch &&& r.bitMask) ||| (latch &&& ~~~r.bitMask)

/-- A bit for each of the eight pixels. -/
def spread (b : Bool) : BitVec 8 := if b then 0xFF else 0

/-- The data of the processor, rotated. -/
def rotated (val : BitVec 8) : BitVec 8 := val.rotateRight (r.dataRotate &&& 7).toNat

/-- What is stored in a plane, by the write mode. -/
def written (val : BitVec 8) (p : Fin 4) (latch : BitVec 8) : BitVec 8 :=
  match (r.mode &&& 3).toNat with
  | 0 =>
    r.masked
      (if r.enableSetReset.getLsbD p then spread (r.setReset.getLsbD p) else r.rotated val) latch
  | 1 => latch
  | 2 => r.masked (spread (val.getLsbD p)) latch
  | _ =>
    { r with bitMask := r.bitMask &&& r.rotated val }.masked (spread (r.setReset.getLsbD p)) latch

/-- What each operation leaves behind: all planes are written, without rotation or function. -/
structure Resting : Prop where
  mapMask : r.mapMask = 0x0F
  dataRotate : r.dataRotate = 0
  mode : r.mode = 0 ∨ r.mode = 2

end Regs

namespace Adapter

variable (s : Adapter)

def outb (port : Nat) (val : BitVec 8) : Adapter := { s with regs := s.regs.outb port val }

/-- A read fills the latches. -/
def read (a : Int) : Adapter := { s with latch := s.vram a }

def write (a : Int) (val : BitVec 8) : Adapter :=
  { s with
    vram := fun b p =>
      if b = a ∧ s.regs.mapMask.getLsbD p then s.regs.written val p (s.latch p) else s.vram b p }

/-- `dummy = *ptr; *ptr = val;` -/
def touch (a : Int) (val : BitVec 8) : Adapter := (s.read a).write a val

end Adapter

/-- `for (int y = ys; y < y2; y += step)` -/
def rowsFrom (ys y2 : Int) (step : Nat) : List Int :=
  (List.range ((y2 - ys + step - 1) / step).toNat).map fun (k : Nat) => ys + step * k

/-! ## Pixels -/

/-- The four bits of a pixel, by the address of its byte and its bit there. -/
def bits (vram : Int → Fin 4 → BitVec 8) (i : Int × Nat) : Fin 4 → Bool :=
  fun p => (vram i.1 p).getLsbD i.2

/-- The place of the pixel at (`x`, `y`). -/
def place (x y : Int) : Int × Nat := (80 * y + x / 8, (7 - x % 8).toNat)

/-- The pixel at (`x`, `y`). -/
def pixel (vram : Int → Fin 4 → BitVec 8) (x y : Int) : Fin 4 → Bool := bits vram (place x y)

/-- Where the pixel at a place is. -/
def pixelX (i : Int × Nat) : Int := 8 * (i.1 % 80) + (7 - i.2)

def pixelY (i : Int × Nat) : Int := i.1 / 80

/-- The point is on the screen. -/
def OnScreen (x y : Int) : Prop := (0 ≤ x ∧ x < 640) ∧ 0 ≤ y ∧ y < 480

/-- The points of a rectangle. -/
def InRect (x1 y1 x2 y2 x y : Int) : Prop := (x1 ≤ x ∧ x < x2) ∧ y1 ≤ y ∧ y < y2

theorem place_pixel {i : Int × Nat} (h : i.2 < 8) : place (pixelX i) (pixelY i) = i := by
  obtain ⟨a, k⟩ := i
  unfold place pixelX pixelY
  dsimp only at h ⊢
  rw [Prod.mk.injEq]
  omega

theorem pixel_place {x y : Int} (h : OnScreen x y) :
    (place x y).2 < 8 ∧ pixelX (place x y) = x ∧ pixelY (place x y) = y := by
  obtain ⟨h1, h2⟩ := h
  unfold place pixelX pixelY
  dsimp only
  omega

/-- A place outside of the screen is one of an address outside of it. -/
theorem onScreen_pixel_iff {i : Int × Nat} (h : i.2 < 8) :
    OnScreen (pixelX i) (pixelY i) ↔ 0 ≤ i.1 ∧ i.1 < 38400 := by
  unfold OnScreen pixelX pixelY
  omega

theorem vram_ext {v w : Int → Fin 4 → BitVec 8} (h : bits v = bits w) : v = w := by
  funext a p
  refine BitVec.eq_of_getLsbD_eq fun k _ => ?_
  exact congrFun (congrFun h (a, k)) p

theorem mem_rowsFrom {ys y2 y : Int} {step : Nat} (hstep : 0 < step) :
    y ∈ rowsFrom ys y2 step ↔ ys ≤ y ∧ y < y2 ∧ (y - ys) % step = 0 := by
  have hpos : (0 : Int) < step := Int.natCast_pos.mpr hstep
  have hlt (k : Nat) : k < ((y2 - ys + step - 1) / step).toNat ↔ ys + step * k < y2 := by
    rw [Int.lt_toNat, Int.lt_iff_add_one_le, Int.le_ediv_iff_mul_le hpos, Int.add_mul, Int.one_mul,
      Int.mul_comm]
    omega
  unfold rowsFrom
  rw [List.mem_map]
  constructor
  · rintro ⟨k, hk, rfl⟩
    have hnonneg : (0 : Int) ≤ step * k := Int.mul_nonneg hpos.le (Int.natCast_nonneg k)
    refine ⟨by omega, (hlt k).mp (List.mem_range.mp hk), ?_⟩
    rw [show ys + step * (k : Int) - ys = step * k by omega, Int.mul_emod_right]
  · rintro ⟨hle, hy, hmod⟩
    have hdiv : (step : Int) * ((y - ys) / step).toNat = y - ys := by
      rw [Int.toNat_of_nonneg (Int.ediv_nonneg (by omega) hpos.le)]
      exact Int.mul_ediv_cancel_of_emod_eq_zero hmod
    exact ⟨((y - ys) / step).toNat, List.mem_range.mpr ((hlt _).mpr (by omega)), by omega⟩

theorem pairwise_rowsFrom {ys y2 : Int} {step : Nat} (hstep : 0 < step) :
    (rowsFrom ys y2 step).Pairwise (· < ·) := by
  unfold rowsFrom
  rw [List.pairwise_map]
  refine List.pairwise_lt_range.imp fun hlt => ?_
  have := Int.mul_lt_mul_of_pos_left (Int.ofNat_lt.mpr hlt) (Int.natCast_pos.mpr hstep)
  omega

/-- The bits of a mask for the pixels from `x` on, in its byte. -/
theorem getLsbD_left {x : Int} {k : Nat} :
    (0xFF#8 >>> (x % 8).toNat).getLsbD k = true ↔ k < 8 ∧ x % 8 ≤ 7 - k := by
  have hall : 0xFF#8 = BitVec.allOnes 8 := rfl
  rw [BitVec.getLsbD_ushiftRight, hall, BitVec.getLsbD_allOnes, decide_eq_true_iff]
  omega

/-- The bits of a mask for the pixels up to `x`, in its byte. -/
theorem getLsbD_right {x : Int} {k : Nat} :
    (0xFF#8 <<< (7 - x % 8).toNat).getLsbD k = true ↔ k < 8 ∧ 7 - (k : Int) ≤ x % 8 := by
  have hall : 0xFF#8 = BitVec.allOnes 8 := rfl
  rw [BitVec.getLsbD_shiftLeft, hall, BitVec.getLsbD_allOnes]
  simp only [Bool.and_eq_true, Bool.not_eq_true', decide_eq_true_iff, decide_eq_false_iff_not]
  omega

/-- The bit `k` from the left -/
theorem getLsbD_top {k j : Nat} (hk : k < 8) : (0x80#8 >>> k).getLsbD j = true ↔ j = 7 - k := by
  have hall : ∀ n < 8, (0x80#8).getLsbD n = true ↔ n = 7 := by decide
  rw [BitVec.getLsbD_ushiftRight]
  by_cases hlt : k + j < 8
  · rw [hall _ hlt]
    omega
  · rw [BitVec.getLsbD_of_ge _ _ (by omega)]
    exact iff_of_false Bool.false_ne_true (by omega)

/-- A loop that adds bits to a mask. -/
theorem getLsbD_foldl_top {p : Nat → Prop} [DecidablePred p] {ks : List Nat}
    (hks : ∀ k ∈ ks, k < 8) {mask : BitVec 8} {j : Nat} :
    (ks.foldl (fun mask k => if p k then mask ||| 0x80#8 >>> k else mask) mask).getLsbD j = true ↔
      mask.getLsbD j = true ∨ ∃ k ∈ ks, p k ∧ j = 7 - k := by
  induction ks generalizing mask with
  | nil => simp
  | cons k ks ih =>
    have hk := getLsbD_top (j := j) (hks k List.mem_cons_self)
    rw [List.foldl_cons, ih fun k' hk' => hks k' (List.mem_cons_of_mem k hk')]
    split_ifs with hsel
    · rw [BitVec.getLsbD_or, Bool.or_eq_true, hk]
      simp [hsel, or_assoc]
    · simp [hsel]

/-- All planes -/
theorem getLsbD_planes (p : Fin 4) : (0x0F : BitVec 8).getLsbD p = true := by
  revert p
  decide

/-! ## Writes -/

/-- What a write of `val` makes of the bits of a plane that the mask lets through. -/
def Regs.Draws (r : Regs) (val : BitVec 8) (g : Fin 4 → Bool → Bool) : Prop :=
  r.mapMask = 0x0F ∧ ∀ p latch k, k < 8 → (r.written val p latch).getLsbD k =
    if r.bitMask.getLsbD k then g p (latch.getLsbD k) else latch.getLsbD k

/-- The pixels of the byte at `a` that the mask lets through. -/
def InByte (a : Int) (mask : BitVec 8) (i : Int × Nat) : Prop := i.1 = a ∧ mask.getLsbD i.2

theorem Adapter.touch_affects {s : Adapter} {val : BitVec 8} {g : Fin 4 → Bool → Bool}
    (h : s.regs.Draws val g) (a : Int) :
    (s.touch a val).regs = s.regs ∧
      Affects (fun _ b p => g p (b p)) (InByte a s.regs.bitMask) (bits s.vram)
        (bits (s.touch a val).vram) := by
  obtain ⟨hmap, hdraws⟩ := h
  have hplane (p : Fin 4) : s.regs.mapMask.getLsbD p = true := hmap ▸ getLsbD_planes p
  refine ⟨rfl, fun i => ⟨?_, ?_⟩⟩
  · rintro ⟨rfl, hk⟩
    funext p
    have hlt : i.2 < 8 := BitVec.lt_of_getLsbD hk
    show (if i.1 = i.1 ∧ s.regs.mapMask.getLsbD p then s.regs.written val p (s.vram i.1 p)
      else s.vram i.1 p).getLsbD i.2 = _
    rw [if_pos ⟨rfl, hplane p⟩, hdraws p _ _ hlt, if_pos hk]
    rfl
  · intro hno
    funext p
    show (if i.1 = a ∧ s.regs.mapMask.getLsbD p then s.regs.written val p (s.vram a p)
      else s.vram i.1 p).getLsbD i.2 = (s.vram i.1 p).getLsbD i.2
    split_ifs with h
    · obtain ⟨rfl, -⟩ := h
      by_cases hlt : i.2 < 8
      · rw [hdraws p _ _ hlt, if_neg fun hk => hno ⟨rfl, hk⟩]
      · rw [BitVec.getLsbD_of_ge _ _ (by omega), BitVec.getLsbD_of_ge _ _ (by omega)]
    · rfl

/-- A loop over rows, each of which changes its part. -/
theorem rows_affect {f : Int × Nat → (Fin 4 → Bool) → Fin 4 → Bool}
    (step : Adapter → Int → Adapter) {part : Int → Int × Nat → Prop} {r : Regs}
    (hstep : ∀ s y, s.regs = r → (step s y).regs = r ∧
      Affects f (part y) (bits s.vram) (bits (step s y).vram))
    (hpart : ∀ y y' i, part y i → part y' i → y = y') (ys y2 : Int) {n : Nat} (hn : 0 < n)
    {s : Adapter} (hs : s.regs = r) :
    ((rowsFrom ys y2 n).foldl step s).regs = r ∧
      Affects f (fun i => ∃ y ∈ rowsFrom ys y2 n, part y i) (bits s.vram)
        (bits ((rowsFrom ys y2 n).foldl step s).vram) := by
  refine Affects.foldl (fun s => bits s.vram) (fun s => s.regs = r) part
    (fun s y _ hs => hstep s y hs) ?_ hs
  refine (pairwise_rowsFrom hn).imp fun hlt i hx hy v => ?_
  exact absurd (hpart _ _ i hx hy) (Int.ne_of_lt hlt)

end Nolrem.Vga
