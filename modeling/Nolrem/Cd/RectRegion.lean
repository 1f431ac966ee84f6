import Nolrem.Cd.Region
import Mathlib.Data.Int.ConditionallyCompleteOrder
import Mathlib.Data.Set.Prod
import Mathlib.Order.ConditionallyCompleteLattice.Basic
import Mathlib.Order.Interval.Set.Basic

/-!
# Regions of one rectangle

`CdCreateRectRegion` and `CdEverythingRegion` of `kernel/CLIPDRAW/region.c`, which write the one
band themselves. No allocation fails.
-/

namespace Nolrem.Cd

variable {h : RegionHeap} {x y width height : Int}

/-! ## The code -/

/-- `memcpy` of `(int16_t) n` to `band_data + ptr`, the low byte first. -/
def putInt16 (band : Nat → Nat) (ptr : Nat) (n : Int) : Nat → Nat :=
  let bits := (BitVec.ofInt 16 n).toNat
  Function.update (Function.update band ptr (bits % 256)) (ptr + 1) (bits / 256)

/-- What `CdCreateRectRegion` writes to a block that had the bytes `stale`. -/
def rectData (stale : Nat → Nat) (x y width height : Int) : RegionData :=
  let band := Function.update stale 0 (0x80 ||| 0x40 ||| 1)
  let band := Function.update band 1 0
  let band := putInt16 band 2 y
  let band := putInt16 band 4 (y + height)
  let band := putInt16 band 6 x
  let band := putInt16 band 8 (x + width)
  { numBands := 1, transX := 0, transY := 0, band }

/-- `CdCreateRectRegion` -/
def cdCreateRectRegion (h : RegionHeap) (x y width height : Int) : RegionHeap × Region :=
  if width ≤ 0 ∨ height ≤ 0 then (h, cdEmptyRegion)
  else
    let allocatedLength := sizeofRegionData + 10
    ({ h with
        block := Function.update h.block h.next (some (rectData h.behind x y width height))
        next := h.next + 1 },
      { data := some h.next, usedLength := allocatedLength, allocatedLength })

/-- `CdEverythingRegion` -/
def cdEverythingRegion (h : RegionHeap) : RegionHeap × Region :=
  cdCreateRectRegion h (-32768) (-32768) 65535 65535

/-! ## What is asked of it -/

/-- The values of an `int16_t`. -/
def int16s : Set Int := Set.Icc (-32768) 32767

/-- The points of a rectangle that have `int16_t` coordinates. -/
def rectPixels (x y width height : Int) : Set (Int × Int) :=
  (int16s ∩ Set.Ico x (x + width)) ×ˢ (int16s ∩ Set.Ico y (y + height))

/-- The empty region, or one whose bands have at least one row and spans of at least one pixel. -/
def Upright (h : RegionHeap) (rgn : Region) : Prop :=
  ∀ d, h.data rgn = some d → ∀ b ∈ d.bands, b.y0 < b.y1 ∧ ∀ s ∈ b.spans, s.1 < s.2

/--
The end of an edge is an `int16_t`, and so is its start; or the start is below, by a multiple of
65536, the smallest one.
-/
def FitsAxis (start length : Int) : Prop :=
  (-32768 ≤ start ∨ 65536 ∣ start + 32768) ∧ -32768 < start + length ∧ start + length ≤ 32767

/-! ## Sixteen bits -/

theorem toInt16_eq_bmod (n : Int) : toInt16 n = n.bmod 65536 := BitVec.toInt_ofInt ..

/-- The value that is left, and what is lost. -/
theorem toInt16_spec (n : Int) :
    ∃ k, toInt16 n = n + 65536 * k ∧ -32768 ≤ toInt16 n ∧ toInt16 n ≤ 32767 := by
  have hlow := Int.le_bmod (x := n) (m := 65536) (by decide)
  have hhigh := Int.bmod_lt (x := n) (m := 65536) (by decide)
  have hsub := Int.emod_add_mul_ediv (n - n.bmod 65536) 65536
  have hmod : (n - n.bmod 65536) % 65536 = 0 :=
    Int.emod_eq_zero_of_dvd Int.dvd_self_sub_bmod
  rw [toInt16_eq_bmod]
  exact ⟨-((n - n.bmod 65536) / 65536), by omega, by omega, by omega⟩

theorem toInt16_mem (n : Int) : toInt16 n ∈ int16s := by
  obtain ⟨k, -, hlow, hhigh⟩ := toInt16_spec n
  exact ⟨hlow, hhigh⟩

theorem toInt16_of_mem {n : Int} (hlow : -32768 ≤ n) (hhigh : n ≤ 32767) : toInt16 n = n := by
  obtain ⟨k, hk, h1, h2⟩ := toInt16_spec n
  omega

theorem int16At_putInt16 (band : Nat → Nat) (ptr : Nat) (n : Int) :
    int16At (putInt16 band ptr n) ptr = toInt16 n := by
  have hne : ptr ≠ ptr + 1 := by omega
  rw [int16At, putInt16, Function.update_self, Function.update_of_ne hne, Function.update_self,
    Nat.mod_add_div, s16, BitVec.ofNat_toNat, BitVec.setWidth_eq]
  rfl

theorem putInt16_of_ne (band : Nat → Nat) {ptr i : Nat} (n : Int) (h0 : i ≠ ptr)
    (h1 : i ≠ ptr + 1) : putInt16 band ptr n i = band i := by
  rw [putInt16, Function.update_of_ne h1, Function.update_of_ne h0]

theorem int16At_putInt16_of_ne (band : Nat → Nat) {ptr i : Nat} (n : Int)
    (hi : i + 1 < ptr ∨ ptr + 1 < i) :
    int16At (putInt16 band ptr n) i = int16At band i := by
  rw [int16At, int16At, putInt16_of_ne band n (by omega) (by omega),
    putInt16_of_ne band n (by omega) (by omega)]

/-! ## The band that is read back -/

/-- A first band in regular mode, with one span. -/
theorem bands_one_regular {band : Nat → Nat} (hctrl : band 0 = 0xC1) (hhigh : band 1 = 0) :
    bands band 1 createIterationContext =
      [{ y0 := int16At band 2, y1 := int16At band 4
         spans := [(int16At band 6, int16At band 8)] }] := by
  have hcontrol : readControl band createIterationContext = (false, createIterationContext) := by
    unfold readControl createIterationContext
    simp [hctrl]
  have hheader : readHeader band 0 0 =
      { numSpans := 1, y0 := int16At band 2, y1 := int16At band 4, ptr := 6, small := false,
        compactSpans := false } := by
    simp [readHeader, hctrl, hhigh]
  unfold bands bands nextBand
  rw [hcontrol]
  simp only [Bool.false_eq_true, if_false, createIterationContext, hheader]
  rfl

theorem rectData_bands (stale : Nat → Nat) (x y width height : Int) :
    (rectData stale x y width height).bands =
      [{ y0 := toInt16 y, y1 := toInt16 (y + height)
         spans := [(toInt16 x, toInt16 (x + width))] }] := by
  have hctrl : (rectData stale x y width height).band 0 = 0xC1 := by
    simp [rectData, putInt16]
  have hhigh : (rectData stale x y width height).band 1 = 0 := by
    simp [rectData, putInt16]
  have hy0 : int16At (rectData stale x y width height).band 2 = toInt16 y := by
    unfold rectData
    rw [int16At_putInt16_of_ne _ _ (by omega), int16At_putInt16_of_ne _ _ (by omega),
      int16At_putInt16_of_ne _ _ (by omega), int16At_putInt16]
  have hy1 : int16At (rectData stale x y width height).band 4 = toInt16 (y + height) := by
    unfold rectData
    rw [int16At_putInt16_of_ne _ _ (by omega), int16At_putInt16_of_ne _ _ (by omega),
      int16At_putInt16]
  have hx0 : int16At (rectData stale x y width height).band 6 = toInt16 x := by
    unfold rectData
    rw [int16At_putInt16_of_ne _ _ (by omega), int16At_putInt16]
  have hx1 : int16At (rectData stale x y width height).band 8 = toInt16 (x + width) :=
    int16At_putInt16 ..
  rw [RegionData.bands, ← hy0, ← hy1, ← hx0, ← hx1]
  exact bands_one_regular hctrl hhigh

/-! ## The pixels -/

theorem data_cdCreateRectRegion (hw : 0 < width) (hh : 0 < height) :
    (cdCreateRectRegion h x y width height).1.data (cdCreateRectRegion h x y width height).2 =
      some (rectData h.behind x y width height) := by
  have hpos : ¬ (width ≤ 0 ∨ height ≤ 0) := by omega
  rw [cdCreateRectRegion, if_neg hpos]
  exact Function.update_self ..

theorem cdCreateRectRegion_eq_empty (hempty : width ≤ 0 ∨ height ≤ 0) :
    cdCreateRectRegion h x y width height = (h, cdEmptyRegion) := if_pos hempty

theorem upright_cdEmptyRegion : Upright h cdEmptyRegion := by
  rintro d ⟨⟩

theorem pixels_cdEmptyRegion : pixels h cdEmptyRegion = ∅ :=
  Set.eq_empty_of_forall_notMem fun _ ⟨_, hd, _⟩ => Option.some_ne_none _ hd.symm

theorem rectPixels_eq_empty (hempty : width ≤ 0 ∨ height ≤ 0) :
    rectPixels x y width height = ∅ := by
  rcases hempty with hle | hle
  · rw [rectPixels, Set.Ico_eq_empty (by omega), Set.inter_empty, Set.empty_prod]
  · rw [rectPixels, Set.Ico_eq_empty (by omega : ¬ y < y + height), Set.inter_empty, Set.prod_empty]

theorem upright_cdCreateRectRegion (hw : 0 < width) (hh : 0 < height) :
    Upright (cdCreateRectRegion h x y width height).1 (cdCreateRectRegion h x y width height).2 ↔
      toInt16 x < toInt16 (x + width) ∧ toInt16 y < toInt16 (y + height) := by
  unfold Upright
  rw [data_cdCreateRectRegion hw hh]
  constructor
  · intro hup
    have hband := hup _ rfl
    rw [rectData_bands] at hband
    obtain ⟨hrows, hspans⟩ := hband _ (List.mem_singleton_self _)
    exact ⟨hspans _ (List.mem_singleton_self _), hrows⟩
  · rintro ⟨hx, hy⟩ d hd b hb
    obtain rfl := Option.some.inj hd
    rw [rectData_bands] at hb
    obtain rfl := List.mem_singleton.mp hb
    refine ⟨hy, fun s hs => ?_⟩
    obtain rfl := List.mem_singleton.mp hs
    exact hx

theorem pixels_cdCreateRectRegion (hw : 0 < width) (hh : 0 < height) :
    pixels (cdCreateRectRegion h x y width height).1 (cdCreateRectRegion h x y width height).2 =
      Set.Ico (toInt16 x) (toInt16 (x + width)) ×ˢ
        Set.Ico (toInt16 y) (toInt16 (y + height)) := by
  ext p
  have hzero : (0 : BitVec 16).toInt = 0 := rfl
  unfold pixels inBands
  rw [data_cdCreateRectRegion hw hh, Set.mem_ofPred_eq, Set.mem_prod, Set.mem_Ico, Set.mem_Ico]
  constructor
  · rintro ⟨d, hd, b, hb, hy0, hy1, s, hs, hx0, hx1⟩
    obtain rfl := Option.some.inj hd
    rw [rectData_bands] at hb
    obtain rfl := List.mem_singleton.mp hb
    obtain rfl := List.mem_singleton.mp hs
    simp only [rectData, hzero, Int.sub_zero] at hx0 hx1 hy0 hy1
    exact ⟨⟨hx0, hx1⟩, hy0, hy1⟩
  · rintro ⟨⟨hx0, hx1⟩, hy0, hy1⟩
    refine ⟨_, rfl, _, by rw [rectData_bands]; exact List.mem_singleton_self _, ?_⟩
    rw [rectData, hzero, Int.sub_zero, Int.sub_zero]
    exact ⟨hy0, hy1, _, List.mem_singleton_self _, hx0, hx1⟩

/-! ## One axis -/

/-- The edge that is stored shows what has to be shown, if and only if it fits. -/
theorem fitsAxis_iff {a n : Int} (hn : 0 < n) :
    toInt16 a < toInt16 (a + n) ∧
        Set.Ico (toInt16 a) (toInt16 (a + n)) = int16s ∩ Set.Ico a (a + n) ↔ FitsAxis a n := by
  obtain ⟨k, hk, hlow, hhigh⟩ := toInt16_spec a
  obtain ⟨l, hl, hlow', hhigh'⟩ := toInt16_spec (a + n)
  constructor
  · rintro ⟨hlt, hset⟩
    have hmem : ∀ p, (toInt16 a ≤ p ∧ p < toInt16 (a + n)) ↔
        ((-32768 ≤ p ∧ p ≤ 32767) ∧ a ≤ p ∧ p < a + n) := fun p => Set.ext_iff.mp hset p
    -- the first and the last point that are shown, and their neighbours
    have h1 := hmem (toInt16 a)
    have h2 := hmem (toInt16 (a + n) - 1)
    have h3 := hmem (toInt16 (a + n))
    have h4 := hmem (toInt16 a - 1)
    have hend : toInt16 (a + n) = a + n := by omega
    refine ⟨?_, by omega, by omega⟩
    by_cases hstart : -32768 ≤ a
    · exact Or.inl hstart
    · exact Or.inr ⟨-k, by omega⟩
  · rintro ⟨hstart, hend0, hend1⟩
    have hend : toInt16 (a + n) = a + n := toInt16_of_mem (by omega) hend1
    rcases hstart with hstart | ⟨m, hm⟩
    · have hself : toInt16 a = a := toInt16_of_mem hstart (by omega)
      rw [hend, hself]
      refine ⟨by omega, Set.ext fun p => ⟨fun hp => ⟨⟨?_, ?_⟩, hp⟩, fun hp => hp.2⟩⟩
      · exact Int.le_trans hstart hp.1
      · have := hp.2
        omega
    · have hself : toInt16 a = max a (-32768) := by omega
      rw [hend, hself]
      refine ⟨by omega, Set.ext fun p => ?_⟩
      simp only [int16s, Set.mem_Ico, Set.mem_inter_iff, Set.mem_Icc]
      omega

/--
`CdCreateRectRegion` returns the empty region or an upright one, with the points of the rectangle
that have `int16_t` coordinates as its pixels, if and only if there is nothing to show or both edges
fit.
-/
theorem rect_region_iff (h : RegionHeap) (x y width height : Int) :
    (Upright (cdCreateRectRegion h x y width height).1
          (cdCreateRectRegion h x y width height).2 ∧
        pixels (cdCreateRectRegion h x y width height).1
            (cdCreateRectRegion h x y width height).2 = rectPixels x y width height) ↔
      width ≤ 0 ∨ height ≤ 0 ∨ (FitsAxis x width ∧ FitsAxis y height) := by
  by_cases hempty : width ≤ 0 ∨ height ≤ 0
  · rw [cdCreateRectRegion_eq_empty hempty, pixels_cdEmptyRegion, rectPixels_eq_empty hempty]
    exact ⟨fun _ => hempty.imp_right Or.inl, fun _ => ⟨upright_cdEmptyRegion, rfl⟩⟩
  · have hw : 0 < width := by omega
    have hh : 0 < height := by omega
    rw [upright_cdCreateRectRegion hw hh, pixels_cdCreateRectRegion hw hh, ← fitsAxis_iff hw,
      ← fitsAxis_iff hh, rectPixels]
    constructor
    · rintro ⟨⟨hx, hy⟩, hset⟩
      have hne : (Set.Ico (toInt16 x) (toInt16 (x + width)) ×ˢ
          Set.Ico (toInt16 y) (toInt16 (y + height))).Nonempty :=
        Set.Nonempty.prod ⟨_, Int.le_refl _, hx⟩ ⟨_, Int.le_refl _, hy⟩
      obtain ⟨hsx, hsy⟩ := (Set.prod_eq_prod_iff_of_nonempty hne).mp hset
      exact Or.inr (Or.inr ⟨⟨hx, hsx⟩, hy, hsy⟩)
    · rintro (hle | hle | ⟨⟨hx, hsx⟩, hy, hsy⟩)
      · omega
      · omega
      · exact ⟨⟨hx, hy⟩, by rw [hsx, hsy]⟩

/-- No block is in use. -/
def noBlocks : RegionHeap where
  block := fun _ => none
  next := 0
  behind := fun _ => 0

/--
A window 1000 pixels wide at 32000: the right edge is stored as -32536, and the region, which is not
upright, has no pixels.
-/
theorem rect_region_wraps :
    ¬ Upright (cdCreateRectRegion noBlocks 32000 0 1000 10).1
        (cdCreateRectRegion noBlocks 32000 0 1000 10).2 ∧
      pixels (cdCreateRectRegion noBlocks 32000 0 1000 10).1
          (cdCreateRectRegion noBlocks 32000 0 1000 10).2 = ∅ ∧
        (32000, 0) ∈ rectPixels 32000 0 1000 10 := by
  have hx0 : toInt16 32000 = 32000 := by decide
  have hx1 : toInt16 (32000 + 1000) = -32536 := by decide
  refine ⟨fun hup => ?_, ?_, ?_⟩
  · have hlt := ((upright_cdCreateRectRegion (by decide) (by decide)).mp hup).1
    omega
  · rw [pixels_cdCreateRectRegion (by decide) (by decide), hx0, hx1, Set.Ico_eq_empty (by decide),
      Set.empty_prod]
  · exact ⟨⟨⟨by decide, by decide⟩, by decide, by decide⟩, ⟨by decide, by decide⟩, by decide,
      by decide⟩

/-! ## Everything -/

/-- All points but those with a coordinate of 32767. -/
theorem pixels_cdEverythingRegion (h : RegionHeap) :
    pixels (cdEverythingRegion h).1 (cdEverythingRegion h).2 =
      Set.Ico (-32768) 32767 ×ˢ Set.Ico (-32768) 32767 :=
  pixels_cdCreateRectRegion (by decide) (by decide)

end Nolrem.Cd
