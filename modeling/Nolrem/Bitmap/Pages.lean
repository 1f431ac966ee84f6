import Mathlib.Data.Nat.Init
import Mathlib.Tactic.IntervalCases
import Nolrem.Bitmap.Regenerate
import Nolrem.Lib.Fill

/-!
# Every byte of a page is a byte of the image

The image is given by its bytes: four planes, and zeros behind them. However a range of it is asked
for, and from whichever checkpoint the rows are read, the bytes are those of the image.
-/

namespace Nolrem.Bitmap

open Nolrem.Lib Nolrem.Vga

/-! ## The image -/

section Image

variable (file : Nat → Nat) (info : BmpInfo) (targetWidth targetHeight : Nat)

/-- The bytes of a native row. -/
def imageRow (row : Nat) : Nat → Reads Nat :=
  if info.isRle then fun j => pure ((cursorAt file info (row + 1)).rowBuffer j)
  else pixelRow file info row

def nativeRow (logicalRow : Nat) : Nat :=
  if info.topDown then logicalRow else info.height - 1 - logicalRow

/-- The colour of the nearest neighbour in the source. -/
def imageColour (row col : Nat) : Nat :=
  (bmpDecodePixel file info (imageRow file info (nativeRow info (row * info.height / targetHeight)))
    (col * info.width / targetWidth)).value

/-- One bit of the dithered colour. -/
def imageBit (plane row col : Nat) : Bool :=
  col < targetWidth &&
    (getDither (imageColour file info targetWidth targetHeight row col) (fun _ => 0)
      (row % 8 * 8 + col % 8)).testBit plane

/-- Eight bits, the leftmost one in the highest place. -/
def packBits (bits : Nat → Bool) : Nat :=
  (List.range 8).foldl (fun acc b => if bits b then acc ||| 0x80 >>> b else acc) 0

/-- Byte number `x` of the planes. -/
def imageByte (x : Nat) : Nat :=
  let stride := (targetWidth + 7) / 8
  let size := stride * targetHeight
  if x < 4 * size then
    packBits fun b =>
      imageBit file info targetWidth targetHeight (x / size) (x % size / stride)
        (x % size % stride * 8 + b)
  else 0

end Image

theorem testBit_packBits (bits : Nat → Bool) {b : Nat} (hb : b < 8) :
    (packBits bits).testBit (7 - b) = bits b := by
  have hstep : ∀ (c : Bool) (acc m k : Nat),
      (if c then acc ||| m else acc).testBit k = (acc.testBit k || c && m.testBit k) := by
    intro c acc m k
    cases c <;> simp
  have hrange : List.range 8 = [0, 1, 2, 3, 4, 5, 6, 7] := rfl
  unfold packBits
  rw [hrange]
  simp only [List.foldl_cons, List.foldl_nil, hstep]
  interval_cases b <;> simp [Nat.testBit_eq_decide_div_mod_eq]

/-- The sizes for which nothing that is computed from them overflows. -/
structure Fits (info : BmpInfo) (targetWidth targetHeight : Nat) : Prop where
  height_pos : 0 < info.height
  targetWidth_pos : 0 < targetWidth
  targetHeight_pos : 0 < targetHeight
  columns : targetWidth * info.width < 2147483648
  rows : info.height * (targetHeight + 1) < 2147483648
  stride : targetWidth + 7 < 2147483648
  planes : 4 * ((targetWidth + 7) / 8 * targetHeight) < 4294967296

/-- Sizes from 1 to 32767. -/
structure Sizes (info : BmpInfo) (targetWidth targetHeight : Nat) : Prop where
  width_le : info.width ≤ 32767
  height_pos : 0 < info.height
  height_le : info.height ≤ 32767
  targetWidth_pos : 0 < targetWidth
  targetWidth_le : targetWidth ≤ 32767
  targetHeight_pos : 0 < targetHeight
  targetHeight_le : targetHeight ≤ 32767

theorem Sizes.fits {info : BmpInfo} {targetWidth targetHeight : Nat}
    (h : Sizes info targetWidth targetHeight) : Fits info targetWidth targetHeight := by
  have hmul : ∀ a b : Nat, a ≤ 32767 → b ≤ 32768 → a * b < 1073741824 := fun a b ha hb =>
    Nat.lt_of_le_of_lt (Nat.mul_le_mul ha hb) (by decide)
  obtain ⟨hwidth, hheightPos, hheight, htwPos, htw, hthPos, hth⟩ := h
  have hcolumns := hmul targetWidth info.width htw (by omega)
  have hrows := hmul info.height (targetHeight + 1) hheight (by omega)
  have hplanes := hmul ((targetWidth + 7) / 8) targetHeight (by omega) (by omega)
  exact ⟨hheightPos, htwPos, hthPos, by omega, by omega, by omega, by omega⟩

/-! ## Rows and columns -/

theorem sourceCoordForOutput_eq {out src dst : Nat} (h : out * src < 2147483648) :
    sourceCoordForOutput out src dst = out * src / dst := by
  unfold sourceCoordForOutput
  rw [Nat.mod_eq_of_lt (by omega)]

/-- A column of the output comes from a column of the file. -/
theorem Fits.column {info : BmpInfo} {targetWidth targetHeight col : Nat}
    (hfits : Fits info targetWidth targetHeight) (hcol : col < targetWidth) :
    sourceCoordForOutput col info.width targetWidth = col * info.width / targetWidth :=
  sourceCoordForOutput_eq
    (Nat.lt_of_le_of_lt (Nat.mul_le_mul_right _ (Nat.le_of_lt hcol)) hfits.columns)

/-- A row of the output comes from a row of the file. -/
theorem Fits.row {info : BmpInfo} {targetWidth targetHeight row : Nat}
    (hfits : Fits info targetWidth targetHeight) (hrow : row < targetHeight) :
    sourceCoordForOutput row info.height targetHeight = row * info.height / targetHeight := by
  have h := hfits.rows
  refine sourceCoordForOutput_eq (Nat.lt_of_le_of_lt ?_ h)
  rw [Nat.mul_comm]
  exact Nat.mul_le_mul_left _ (by omega)

/-- `OutputRowRangeForLogicalRow` inverts `SourceCoordForOutput`. -/
theorem mem_outputRowRange {l o s d : Nat} (hfits : s * (d + 1) < 2147483648) (hl : l < s)
    (ho : o < d) :
    ((outputRowRangeForLogicalRow l s d).1 ≤ o ∧ o ≤ (outputRowRangeForLogicalRow l s d).2) ↔
      o * s / d = l := by
  have hld : (l + 1) * d ≤ s * d := Nat.mul_le_mul_right d hl
  have hsd : s * (d + 1) = s * d + s := Nat.mul_succ s d
  have hexp : (l + 1) * d = l * d + d := Nat.succ_mul l d
  have hlo : (l * d + s - 1) / s ≤ o ↔ l * d ≤ o * s := by
    rw [← Nat.lt_succ_iff, Nat.div_lt_iff_lt_mul (by omega), Nat.succ_mul]
    omega
  have hhi : o + 1 ≤ ((l + 1) * d + s - 1) / s ↔ o * s < (l + 1) * d := by
    rw [Nat.le_div_iff_mul_le (by omega), Nat.succ_mul]
    omega
  have hdiv : o * s / d = l ↔ l * d ≤ o * s ∧ o * s < (l + 1) * d := by
    constructor
    · rintro rfl
      exact ⟨Nat.div_mul_le_self _ _, Nat.lt_mul_of_div_lt (Nat.lt_succ_self _) (by omega)⟩
    · rintro ⟨h1, h2⟩
      exact Nat.div_eq_of_lt_le h1 h2
  have hpos : 1 ≤ ((l + 1) * d + s - 1) / s :=
    Nat.div_pos (by omega) (by omega)
  unfold outputRowRangeForLogicalRow
  rw [Nat.mod_eq_of_lt (by omega), Nat.mod_eq_of_lt (by omega), hdiv, ← hlo, ← hhi]
  dsimp only
  split_ifs <;> omega

theorem outputRowRange_lt {l s d : Nat} (hd : 1 ≤ d) :
    (outputRowRangeForLogicalRow l s d).2 < d := by
  unfold outputRowRangeForLogicalRow
  dsimp only
  split_ifs <;> omega

/-- The ranges are those of the rows of the source, and every row of the output is in one of them. -/
theorem outputRowRange_partition (srcHeight dstHeight : Nat) (hsrc : 1 ≤ srcHeight)
    (hdst : 1 ≤ dstHeight) (hfits : (srcHeight + 1) * (dstHeight + 1) < 2147483648) :
    (∀ r < srcHeight, ∀ o,
      ((outputRowRangeForLogicalRow r srcHeight dstHeight).1 ≤ o ∧
        o ≤ (outputRowRangeForLogicalRow r srcHeight dstHeight).2) ↔
          o < dstHeight ∧ sourceCoordForOutput o srcHeight dstHeight = r) ∧
    ∀ o < dstHeight, ∃! r, r < srcHeight ∧
      (outputRowRangeForLogicalRow r srcHeight dstHeight).1 ≤ o ∧
        o ≤ (outputRowRangeForLogicalRow r srcHeight dstHeight).2 := by
  have hmul : (srcHeight + 1) * (dstHeight + 1) =
      srcHeight * (dstHeight + 1) + (dstHeight + 1) := Nat.succ_mul _ _
  have hrows : srcHeight * (dstHeight + 1) < 2147483648 := by omega
  have hcoord (o : Nat) (ho : o < dstHeight) :
      sourceCoordForOutput o srcHeight dstHeight = o * srcHeight / dstHeight := by
    refine sourceCoordForOutput_eq (Nat.lt_of_le_of_lt ?_ hrows)
    rw [Nat.mul_comm]
    exact Nat.mul_le_mul_left _ (by omega)
  have hrange (r : Nat) (hr : r < srcHeight) (o : Nat) :
      ((outputRowRangeForLogicalRow r srcHeight dstHeight).1 ≤ o ∧
        o ≤ (outputRowRangeForLogicalRow r srcHeight dstHeight).2) ↔
          o < dstHeight ∧ sourceCoordForOutput o srcHeight dstHeight = r := by
    by_cases ho : o < dstHeight
    · rw [mem_outputRowRange hrows hr ho, hcoord o ho]
      exact (and_iff_right ho).symm
    · have hlt := outputRowRange_lt (l := r) (s := srcHeight) hdst
      exact iff_of_false (fun h => ho (Nat.lt_of_le_of_lt h.2 hlt)) fun h => ho h.1
  refine ⟨hrange, fun o ho => ⟨sourceCoordForOutput o srcHeight dstHeight, ?_, ?_⟩⟩
  · have hlt : sourceCoordForOutput o srcHeight dstHeight < srcHeight := by
      rw [hcoord o ho, Nat.div_lt_iff_lt_mul (by omega), Nat.mul_comm]
      exact Nat.mul_lt_mul_of_pos_left ho hsrc
    exact ⟨hlt, (hrange _ hlt o).mpr ⟨ho, rfl⟩⟩
  · rintro r ⟨hr, hmem⟩
    exact ((hrange r hr o).mp hmem).2.symm

/-- Three rows of a source become five. -/
theorem outputRowRange_partition_up :
    (∀ r < 3, ∀ o,
      ((outputRowRangeForLogicalRow r 3 5).1 ≤ o ∧ o ≤ (outputRowRangeForLogicalRow r 3 5).2) ↔
          o < 5 ∧ sourceCoordForOutput o 3 5 = r) ∧
    ∀ o < 5, ∃! r, r < 3 ∧ (outputRowRangeForLogicalRow r 3 5).1 ≤ o ∧
        o ≤ (outputRowRangeForLogicalRow r 3 5).2 :=
  outputRowRange_partition 3 5 (by decide) (by decide) (by decide)

/-! ## One byte -/

/-- What is cached is the dither of the colour, whatever the tile held before. -/
def DitherCache.Ok (cache : DitherCache) : Prop :=
  cache.valid = true → ∀ p < 64, cache.tile p = getDither cache.colour (fun _ => 0) p

theorem ditherIndexFor_spec {cache : DitherCache} (hcache : cache.Ok) (colour outRow col : Nat) :
    (ditherIndexFor cache colour outRow col).1 =
        getDither colour (fun _ => 0) (outRow % 8 * 8 + col % 8) ∧
      (ditherIndexFor cache colour outRow col).2.Ok := by
  unfold ditherIndexFor
  dsimp only
  by_cases hmiss : (!cache.valid || colour != cache.colour) = true
  · rw [if_pos hmiss]
    exact ⟨getDither_congr colour _ _ (by omega), fun _ p hp => getDither_congr colour _ _ hp⟩
  · rw [if_neg hmiss]
    simp only [Bool.or_eq_true, Bool.not_eq_true', bne_iff_ne, ne_eq, not_or, not_not,
      Bool.not_eq_false] at hmiss
    obtain ⟨hvalid, rfl⟩ := hmiss
    exact ⟨hcache hvalid _ (by omega), hcache⟩

section Byte

variable {file : Nat → Nat} {info : BmpInfo} {row : Nat → Reads Nat}
variable {targetWidth targetHeight outRow : Nat} {cache : DitherCache}

theorem planePixel_value (hfits : Fits info targetWidth targetHeight) (byteOff plane : Nat)
    (hrow : row = imageRow file info (nativeRow info (outRow * info.height / targetHeight)))
    (hcache : cache.Ok) (acc b : Nat) :
    ∃ cache', cache'.Ok ∧
      (planePixel file info row outRow byteOff plane targetWidth (acc, cache) b).value =
        (if imageBit file info targetWidth targetHeight plane outRow (byteOff * 8 + b) then
          acc ||| 0x80 >>> b else acc, cache') := by
  unfold planePixel imageBit
  dsimp only
  by_cases hcol : targetWidth ≤ byteOff * 8 + b
  · rw [if_pos hcol]
    refine ⟨cache, hcache, ?_⟩
    simp [Nat.not_lt.mpr hcol]
  · rw [if_neg hcol, Reads.value_bind, Reads.value_pure,
      hfits.column (Nat.lt_of_not_le hcol)]
    obtain ⟨hindex, hok⟩ := ditherIndexFor_spec hcache
      (bmpDecodePixel file info row ((byteOff * 8 + b) * info.width / targetWidth)).value outRow
      (byteOff * 8 + b)
    refine ⟨_, hok, ?_⟩
    rw [hindex, hrow]
    simp [Nat.lt_of_not_le hcol, imageColour]

theorem buildPlaneByte_value (hfits : Fits info targetWidth targetHeight)
    (byteOff plane : Nat)
    (hrow : row = imageRow file info (nativeRow info (outRow * info.height / targetHeight)))
    (hcache : cache.Ok) :
    ∃ cache', cache'.Ok ∧
      (buildPlaneByte file info row outRow byteOff plane targetWidth cache).value =
        (packBits fun b =>
          imageBit file info targetWidth targetHeight plane outRow (byteOff * 8 + b), cache') := by
  have hloop : ∀ (l : List Nat) (acc : Nat) (cache : DitherCache), cache.Ok →
      ∃ cache', cache'.Ok ∧
        l.foldl (fun s b =>
          (planePixel file info row outRow byteOff plane targetWidth s b).value) (acc, cache) =
        (l.foldl (fun acc b =>
          if imageBit file info targetWidth targetHeight plane outRow (byteOff * 8 + b) then
            acc ||| 0x80 >>> b else acc) acc, cache') := by
    intro l
    induction l with
    | nil => exact fun acc cache hok => ⟨cache, hok, rfl⟩
    | cons b l ih =>
      intro acc cache hok
      obtain ⟨cache', hok', hvalue⟩ := planePixel_value hfits byteOff plane hrow hok acc b
      rw [List.foldl_cons, hvalue, List.foldl_cons]
      exact ih _ cache' hok'
  unfold buildPlaneByte packBits
  rw [Reads.value_foldlM]
  exact hloop (List.range 8) 0 cache hcache

end Byte

/-! ## Where the bytes are -/

section Places

variable {file : Nat → Nat} {info : BmpInfo} {targetWidth targetHeight : Nat}

/-- The size of a plane. -/
def planeBytes (targetWidth targetHeight : Nat) : Nat := (targetWidth + 7) / 8 * targetHeight

theorem four_planeBytes_lt (hfits : Fits info targetWidth targetHeight) :
    4 * planeBytes targetWidth targetHeight < 4294967296 :=
  hfits.planes

theorem imageByte_eq {plane x : Nat} (hplane : plane < 4)
    (hle : plane * planeBytes targetWidth targetHeight ≤ x)
    (hlt : x < plane * planeBytes targetWidth targetHeight + planeBytes targetWidth targetHeight) :
    imageByte file info targetWidth targetHeight x =
      packBits fun b =>
        imageBit file info targetWidth targetHeight plane
          ((x - plane * planeBytes targetWidth targetHeight) / ((targetWidth + 7) / 8))
          ((x - plane * planeBytes targetWidth targetHeight) % ((targetWidth + 7) / 8) * 8 +
            b) := by
  have hbefore : plane * planeBytes targetWidth targetHeight ≤
      3 * planeBytes targetWidth targetHeight := Nat.mul_le_mul_right _ (by omega)
  have hdiv : x / planeBytes targetWidth targetHeight = plane :=
    Nat.div_eq_of_lt_le hle (by rw [Nat.succ_mul]; exact hlt)
  have hmod : x % planeBytes targetWidth targetHeight =
      x - plane * planeBytes targetWidth targetHeight := by
    rw [Nat.mod_def, hdiv, Nat.mul_comm]
  unfold imageByte
  dsimp only
  rw [← planeBytes, if_pos (by omega), hdiv, hmod]

theorem imageByte_past {x : Nat} (h : 4 * planeBytes targetWidth targetHeight ≤ x) :
    imageByte file info targetWidth targetHeight x = 0 :=
  if_neg (Nat.not_lt.mpr h)

theorem computePlaneDimensions_eq (hfits : Fits info targetWidth targetHeight) :
    computePlaneDimensions targetWidth targetHeight =
      ((targetWidth + 7) / 8, planeBytes targetWidth targetHeight,
        4 * planeBytes targetWidth targetHeight) := by
  have h := four_planeBytes_lt hfits
  unfold computePlaneDimensions
  dsimp only
  rw [← planeBytes, Nat.mod_eq_of_lt (a := planeBytes targetWidth targetHeight) (by omega),
    Nat.mod_eq_of_lt (by omega), Nat.mul_comm]

theorem planeFragment_eq (hfits : Fits info targetWidth targetHeight) {plane start stop : Nat}
    (hplane : plane < 4) :
    planeFragment start stop (planeBytes targetWidth targetHeight) plane =
      (plane * planeBytes targetWidth targetHeight,
        max start (plane * planeBytes targetWidth targetHeight),
        min stop (plane * planeBytes targetWidth targetHeight +
          planeBytes targetWidth targetHeight)) := by
  have hbefore : plane * planeBytes targetWidth targetHeight ≤
      3 * planeBytes targetWidth targetHeight := Nat.mul_le_mul_right _ (by omega)
  have h := four_planeBytes_lt hfits
  unfold planeFragment
  dsimp only
  rw [Nat.mod_eq_of_lt (a := plane * _) (by omega), Nat.mod_eq_of_lt (by omega)]
  simp only [Prod.mk.injEq, true_and]
  constructor <;> split_ifs <;> omega

end Places

/-! ## Fragments -/

/-- The fragment of a plane that is asked for. -/
structure Fragment (info : BmpInfo)
    (targetWidth targetHeight plane fragStart fragEnd regenOffset : Nat) : Prop where
  fits : Fits info targetWidth targetHeight
  plane_lt : plane < 4
  offset_le : regenOffset ≤ fragStart
  start_le : plane * planeBytes targetWidth targetHeight ≤ fragStart
  nonempty : fragStart < fragEnd
  end_le : fragEnd ≤
    plane * planeBytes targetWidth targetHeight + planeBytes targetWidth targetHeight

theorem fragment_of_not_le {info : BmpInfo}
    {targetWidth targetHeight plane regenOffset requestEnd : Nat}
    (hfits : Fits info targetWidth targetHeight) (hplane : plane < 4)
    (h : ¬ min requestEnd (plane * planeBytes targetWidth targetHeight +
      planeBytes targetWidth targetHeight) ≤
        max regenOffset (plane * planeBytes targetWidth targetHeight)) :
    Fragment info targetWidth targetHeight plane
      (max regenOffset (plane * planeBytes targetWidth targetHeight))
      (min requestEnd (plane * planeBytes targetWidth targetHeight +
        planeBytes targetWidth targetHeight)) regenOffset :=
  ⟨hfits, hplane, Nat.le_max_left _ _, Nat.le_max_right _ _, Nat.lt_of_not_le h,
    Nat.min_le_right _ _⟩

section Fragments

variable {file : Nat → Nat} {info : BmpInfo}
variable {targetWidth targetHeight plane fragStart fragEnd regenOffset : Nat}
variable {s : DitherCache × (Nat → Nat)}

theorem outRow_lt (hfits : Fits info targetWidth targetHeight) {y : Nat}
    (hy : y < planeBytes targetWidth targetHeight) :
    y / ((targetWidth + 7) / 8) < targetHeight := by
  have hpos := hfits.targetWidth_pos
  rw [Nat.div_lt_iff_lt_mul (by omega), Nat.mul_comm]
  exact hy

/-- Row number `row` of the output comes from a row of the file. -/
theorem logicalRow_lt (hfits : Fits info targetWidth targetHeight) {row : Nat}
    (hrow : row < targetHeight) : row * info.height / targetHeight < info.height := by
  have hpos := hfits.height_pos
  rw [Nat.div_lt_iff_lt_mul hfits.targetHeight_pos, Nat.mul_comm]
  exact Nat.mul_lt_mul_of_pos_left hrow hpos

theorem Fragment.buildPlaneByte_value
    (hfrag : Fragment info targetWidth targetHeight plane fragStart fragEnd regenOffset) {x : Nat}
    (hstart : fragStart ≤ x) (hend : x < fragEnd) {row : Nat → Reads Nat}
    (hrow : row = imageRow file info (nativeRow info
      ((x - plane * planeBytes targetWidth targetHeight) / ((targetWidth + 7) / 8) * info.height /
        targetHeight)))
    {cache : DitherCache} (hcache : cache.Ok) :
    ∃ cache', cache'.Ok ∧
      (buildPlaneByte file info row
        ((x - plane * planeBytes targetWidth targetHeight) / ((targetWidth + 7) / 8))
        ((x - plane * planeBytes targetWidth targetHeight) % ((targetWidth + 7) / 8)) plane
        targetWidth cache).value = (imageByte file info targetWidth targetHeight x, cache') := by
  have hle := hfrag.start_le
  have hlt := hfrag.end_le
  rw [imageByte_eq hfrag.plane_lt (by omega) (by omega)]
  exact Bitmap.buildPlaneByte_value hfrag.fits _ plane hrow hcache

theorem randomAccessByte_fills
    (hfrag : Fragment info targetWidth targetHeight plane fragStart fragEnd regenOffset)
    (hrle : info.isRle = false) {x : Nat} (hstart : fragStart ≤ x) (hend : x < fragEnd)
    (hcache : s.1.Ok) :
    let s' := (randomAccessByte file info targetWidth targetHeight ((targetWidth + 7) / 8) plane
      (plane * planeBytes targetWidth targetHeight) regenOffset s x).value
    s'.1.Ok ∧ Fills (imageByte file info targetWidth targetHeight) regenOffset (fun y => y = x)
      s.2 s'.2 := by
  have hle := hfrag.start_le
  have hlt := hfrag.end_le
  have hoffset := hfrag.offset_le
  have hrow := outRow_lt hfrag.fits (show x - plane * planeBytes targetWidth targetHeight <
    planeBytes targetWidth targetHeight by omega)
  obtain ⟨cache', hok', hvalue⟩ :=
    hfrag.buildPlaneByte_value hstart hend (rfl : _ = imageRow file info _) hcache
  unfold randomAccessByte
  dsimp only
  rw [hfrag.fits.row hrow, Reads.value_bind, Reads.value_pure]
  rw [imageRow, hrle, if_neg Bool.false_ne_true, nativeRow] at hvalue
  rw [hvalue]
  exact ⟨hok', Fills.update (by omega)⟩

theorem regenRandomAccessFragment_fills
    (hfrag : Fragment info targetWidth targetHeight plane fragStart fragEnd regenOffset)
    (hrle : info.isRle = false) (hcache : s.1.Ok) :
    Fills (imageByte file info targetWidth targetHeight) regenOffset
      (fun y => fragStart ≤ y ∧ y < fragEnd) s.2
      (regenRandomAccessFragment file info targetWidth targetHeight ((targetWidth + 7) / 8) plane
        (plane * planeBytes targetWidth targetHeight) fragStart fragEnd regenOffset s).value.2 := by
  unfold regenRandomAccessFragment
  rw [Reads.value_foldlM]
  refine ((Fills.foldl Prod.snd (fun s => s.1.Ok) (fun x y => y = x) ?_ hcache).2).congr
    fun i => ?_
  · intro s x hx hok
    rw [List.mem_range'_1] at hx
    exact randomAccessByte_fills hfrag hrle hx.1 (by omega) hok
  · simp only [List.mem_range'_1]
    have h := hfrag.nonempty
    constructor
    · rintro ⟨x, hx, rfl⟩
      omega
    · intro hi
      exact ⟨regenOffset + i, by omega, rfl⟩

/-! ## Fragments of a run-length file -/

/-- The output row of a byte. -/
def rowOf (targetWidth targetHeight plane y : Nat) : Nat :=
  (y - plane * planeBytes targetWidth targetHeight) / ((targetWidth + 7) / 8)

theorem rowOf_eq_iff (hwidth : 0 < targetWidth) {y o : Nat}
    (hy : plane * planeBytes targetWidth targetHeight ≤ y) :
    rowOf targetWidth targetHeight plane y = o ↔
      plane * planeBytes targetWidth targetHeight + o * ((targetWidth + 7) / 8) ≤ y ∧
        y < plane * planeBytes targetWidth targetHeight + o * ((targetWidth + 7) / 8) +
          (targetWidth + 7) / 8 := by
  have hstride : 0 < (targetWidth + 7) / 8 := by omega
  have hsucc : (o + 1) * ((targetWidth + 7) / 8) =
      o * ((targetWidth + 7) / 8) + (targetWidth + 7) / 8 := Nat.succ_mul _ _
  unfold rowOf
  constructor
  · rintro rfl
    have hle := Nat.div_mul_le_self (y - plane * planeBytes targetWidth targetHeight)
      ((targetWidth + 7) / 8)
    have hlt := Nat.lt_mul_of_div_lt (Nat.lt_succ_self
      ((y - plane * planeBytes targetWidth targetHeight) / ((targetWidth + 7) / 8))) hstride
    rw [Nat.succ_eq_add_one, hsucc] at hlt
    omega
  · rintro ⟨hle, hlt⟩
    exact Nat.div_eq_of_lt_le (by omega) (by omega)

theorem Fragment.rowOf_lt
    (hfrag : Fragment info targetWidth targetHeight plane fragStart fragEnd regenOffset) {y : Nat}
    (hstart : fragStart ≤ y) (hend : y < fragEnd) :
    rowOf targetWidth targetHeight plane y < targetHeight := by
  have hle := hfrag.start_le
  have hlt := hfrag.end_le
  exact outRow_lt hfrag.fits (by omega)

theorem rleByteOfRow_fills
    (hfrag : Fragment info targetWidth targetHeight plane fragStart fragEnd regenOffset)
    {x o : Nat} (hstart : fragStart ≤ x) (hend : x < fragEnd)
    (ho : rowOf targetWidth targetHeight plane x = o)
    {row : Nat → Reads Nat}
    (hrow : row = imageRow file info (nativeRow info (o * info.height / targetHeight)))
    (hcache : s.1.Ok) :
    let s' := (rleByteOfRow file info row targetWidth plane o
      (plane * planeBytes targetWidth targetHeight + o * ((targetWidth + 7) / 8)) regenOffset s
      x).value
    s'.1.Ok ∧ Fills (imageByte file info targetWidth targetHeight) regenOffset (fun y => y = x)
      s.2 s'.2 := by
  have hle := hfrag.start_le
  have hoffset := hfrag.offset_le
  obtain ⟨cache', hok', hvalue⟩ :=
    hfrag.buildPlaneByte_value hstart hend (hrow.trans (by rw [← ho, rowOf])) hcache
  have hmod : (x - plane * planeBytes targetWidth targetHeight) % ((targetWidth + 7) / 8) =
      x - (plane * planeBytes targetWidth targetHeight + o * ((targetWidth + 7) / 8)) := by
    rw [Nat.mod_def, ← rowOf, ho, Nat.mul_comm ((targetWidth + 7) / 8), Nat.sub_sub]
  rw [← rowOf, ho, hmod] at hvalue
  unfold rleByteOfRow
  dsimp only
  rw [Reads.value_bind, Reads.value_pure, hvalue]
  exact ⟨hok', Fills.update (by omega)⟩

theorem rleOutputRow_fills
    (hfrag : Fragment info targetWidth targetHeight plane fragStart fragEnd regenOffset)
    {o : Nat} (ho : o < targetHeight) {row : Nat → Reads Nat}
    (hrow : row = imageRow file info (nativeRow info (o * info.height / targetHeight)))
    (hcache : s.1.Ok) :
    let s' := (rleOutputRow file info row targetWidth ((targetWidth + 7) / 8) plane
      (plane * planeBytes targetWidth targetHeight) fragStart fragEnd regenOffset s o).value
    s'.1.Ok ∧ Fills (imageByte file info targetWidth targetHeight) regenOffset
      (fun y => (fragStart ≤ y ∧ y < fragEnd) ∧ rowOf targetWidth targetHeight plane y = o)
      s.2 s'.2 := by
  have hwidth := hfrag.fits.targetWidth_pos
  have hle := hfrag.start_le
  have hplane : plane * planeBytes targetWidth targetHeight ≤
      3 * planeBytes targetWidth targetHeight :=
    Nat.mul_le_mul_right _ (Nat.le_of_lt_succ hfrag.plane_lt)
  have htotal := four_planeBytes_lt hfrag.fits
  have hrows : o * ((targetWidth + 7) / 8) + (targetWidth + 7) / 8 ≤
      planeBytes targetWidth targetHeight := by
    have h := Nat.mul_le_mul_right ((targetWidth + 7) / 8) (Nat.succ_le_of_lt ho)
    rw [Nat.succ_mul, Nat.mul_comm targetHeight] at h
    exact h
  have hin : ∀ y, fragStart ≤ y →
      (rowOf targetWidth targetHeight plane y = o ↔
        plane * planeBytes targetWidth targetHeight + o * ((targetWidth + 7) / 8) ≤ y ∧
          y < plane * planeBytes targetWidth targetHeight + o * ((targetWidth + 7) / 8) +
            (targetWidth + 7) / 8) :=
    fun y hy => rowOf_eq_iff hwidth (Nat.le_trans hle hy)
  unfold rleOutputRow
  dsimp only
  rw [Reads.value_foldlM,
    Nat.mod_eq_of_lt (a := plane * planeBytes targetWidth targetHeight + _) (by omega),
    Nat.mod_eq_of_lt (by omega)]
  generalize hlo : (if fragStart > plane * planeBytes targetWidth targetHeight +
    o * ((targetWidth + 7) / 8) then fragStart
    else plane * planeBytes targetWidth targetHeight + o * ((targetWidth + 7) / 8)) = lo
  generalize hhi : (if fragEnd < plane * planeBytes targetWidth targetHeight +
    o * ((targetWidth + 7) / 8) + (targetWidth + 7) / 8 then fragEnd
    else plane * planeBytes targetWidth targetHeight + o * ((targetWidth + 7) / 8) +
      (targetWidth + 7) / 8) = hi
  have hmem : ∀ y, (lo ≤ y ∧ y < lo + (hi - lo)) ↔
      (fragStart ≤ y ∧ y < fragEnd) ∧ rowOf targetWidth targetHeight plane y = o := by
    intro y
    by_cases hy : fragStart ≤ y
    · rw [hin y hy, ← hlo, ← hhi]
      split_ifs <;> omega
    · rw [← hlo]
      split_ifs <;> omega
  have hround : ∀ (s : DitherCache × (Nat → Nat)) (x : Nat), x ∈ List.range' lo (hi - lo) →
      s.1.Ok →
      let s' := (rleByteOfRow file info row targetWidth plane o
        (plane * planeBytes targetWidth targetHeight + o * ((targetWidth + 7) / 8)) regenOffset s
        x).value
      s'.1.Ok ∧ Fills (imageByte file info targetWidth targetHeight) regenOffset (fun y => y = x)
        s.2 s'.2 := by
    intro s x hx hok
    obtain ⟨hfragment, hrowOf⟩ := (hmem x).mp (List.mem_range'_1.mp hx)
    exact rleByteOfRow_fills hfrag hfragment.1 hfragment.2 hrowOf hrow hok
  obtain ⟨hok, hfills⟩ :=
    Fills.foldl Prod.snd (fun s : DitherCache × (Nat → Nat) => s.1.Ok) (fun x y => y = x) hround
      hcache
  refine ⟨hok, hfills.congr fun i => ?_⟩
  simp only [List.mem_range'_1]
  constructor
  · rintro ⟨x, hx, rfl⟩
    exact (hmem _).mp hx
  · exact fun h => ⟨_, (hmem _).mpr h, rfl⟩

theorem rleNativeRow_fills
    (hfrag : Fragment info targetWidth targetHeight plane fragStart fragEnd regenOffset)
    (hbottom : info.topDown = false) {r : Nat} (hr : r < info.height) (hcache : s.1.Ok) :
    let s' := (rleNativeRow file info (imageRow file info r) targetWidth targetHeight
      ((targetWidth + 7) / 8) plane (plane * planeBytes targetWidth targetHeight) fragStart fragEnd
      regenOffset (rowOf targetWidth targetHeight plane fragStart)
      (rowOf targetWidth targetHeight plane (fragEnd - 1)) r s).value
    s'.1.Ok ∧ Fills (imageByte file info targetWidth targetHeight) regenOffset
      (fun y => (fragStart ≤ y ∧ y < fragEnd) ∧
        rowOf targetWidth targetHeight plane y * info.height / targetHeight = info.height - 1 - r)
      s.2 s'.2 := by
  have hrows := hfrag.rowOf_lt (Nat.le_sub_one_of_lt hfrag.nonempty)
    (Nat.sub_lt (Nat.zero_lt_of_lt hfrag.nonempty) Nat.one_pos)
  have hmono : ∀ y z, y ≤ z → rowOf targetWidth targetHeight plane y ≤
      rowOf targetWidth targetHeight plane z :=
    fun y z hyz => Nat.div_le_div_right (Nat.sub_le_sub_right hyz _)
  generalize hmin : (outputRowRangeForLogicalRow (info.height - 1 - r) info.height
    targetHeight).1 = rowMin
  generalize hmax : (outputRowRangeForLogicalRow (info.height - 1 - r) info.height
    targetHeight).2 = rowMax
  unfold rleNativeRow
  dsimp only
  rw [hmin, hmax, Reads.value_foldlM]
  generalize hlo : (if rowMin < rowOf targetWidth targetHeight plane fragStart then
    rowOf targetWidth targetHeight plane fragStart else rowMin) = lo
  generalize hhi : (if rowMax > rowOf targetWidth targetHeight plane (fragEnd - 1) then
    rowOf targetWidth targetHeight plane (fragEnd - 1) else rowMax) = hi
  have hmem : ∀ o, (lo ≤ o ∧ o < lo + (hi + 1 - lo)) ↔
      (rowOf targetWidth targetHeight plane fragStart ≤ o ∧
        o ≤ rowOf targetWidth targetHeight plane (fragEnd - 1)) ∧
      o * info.height / targetHeight = info.height - 1 - r := by
    intro o
    by_cases ho : o < targetHeight
    · rw [← mem_outputRowRange hfrag.fits.rows (by omega) ho,
        hmin, hmax, ← hlo, ← hhi]
      split_ifs <;> omega
    · rw [← hlo, ← hhi]
      split_ifs <;> omega
  have hround : ∀ (s : DitherCache × (Nat → Nat)) (o : Nat), o ∈ List.range' lo (hi + 1 - lo) →
      s.1.Ok →
      let s' := (rleOutputRow file info (imageRow file info r) targetWidth ((targetWidth + 7) / 8)
        plane (plane * planeBytes targetWidth targetHeight) fragStart fragEnd regenOffset s o).value
      s'.1.Ok ∧ Fills (imageByte file info targetWidth targetHeight) regenOffset
        (fun y => (fragStart ≤ y ∧ y < fragEnd) ∧ rowOf targetWidth targetHeight plane y = o)
        s.2 s'.2 := by
    intro s o ho hok
    obtain ⟨hrange, hlogical⟩ := (hmem o).mp (List.mem_range'_1.mp ho)
    refine rleOutputRow_fills hfrag (Nat.lt_of_le_of_lt hrange.2 hrows) ?_ hok
    rw [hlogical, nativeRow, hbottom, if_neg Bool.false_ne_true,
      show info.height - 1 - (info.height - 1 - r) = r by omega]
  obtain ⟨hok, hfills⟩ :=
    Fills.foldl Prod.snd (fun s : DitherCache × (Nat → Nat) => s.1.Ok)
      (fun o y => (fragStart ≤ y ∧ y < fragEnd) ∧ rowOf targetWidth targetHeight plane y = o)
      hround hcache
  refine ⟨hok, hfills.congr fun i => ?_⟩
  simp only [List.mem_range'_1]
  constructor
  · rintro ⟨o, ho, hi, rfl⟩
    exact ⟨hi, ((hmem _).mp ho).2⟩
  · rintro ⟨hi, hlogical⟩
    exact ⟨_, (hmem _).mpr ⟨⟨hmono _ _ hi.1, hmono _ _ (Nat.le_sub_one_of_lt hi.2)⟩, hlogical⟩,
      hi, rfl⟩

/-! ## The cursor in front of a row -/

theorem bmpRowCursorNext_rle (hrle : info.isRle = true) {r : Nat} (hr : r < info.height)
    {cursor : Cursor} (hcursor : cursor.toCheckpoint = (cursorAt file info r).toCheckpoint) :
    (bmpRowCursorNext file info cursor).value =
      some (imageRow file info r, cursorAt file info (r + 1)) := by
  have hrow : cursor.nextRow = r :=
    (congrArg Checkpoint.nextRow hcursor).trans (cursorAt_nextRow r)
  unfold bmpRowCursorNext
  rw [if_neg (by omega), if_pos hrle, Reads.value_bind, Reads.value_pure,
    bmpRowCursorNextRLE_congr hcursor, imageRow, if_pos hrle]
  rfl

/-- A loop over the rows fills what its rounds from `nativeLo` on fill. -/
theorem walkRows_fills {image : Nat → Nat} {nativeLo : Nat} {part : Nat → Nat → Prop}
    {draw : (Nat → Reads Nat) → Nat → DitherCache × (Nat → Nat) →
      Reads (DitherCache × (Nat → Nat))}
    (hrle : info.isRle = true)
    (hdraw : ∀ s r, r < info.height → s.1.Ok →
      let s' := (draw (imageRow file info r) r s).value
      s'.1.Ok ∧ Fills image regenOffset (part r) s.2 s'.2)
    {n r : Nat} (hn : r + n ≤ info.height) {cursor : Cursor}
    (hcursor : cursor.toCheckpoint = (cursorAt file info r).toCheckpoint) (hcache : s.1.Ok) :
    Fills image regenOffset (fun y => ∃ r' ∈ List.range' r n, nativeLo ≤ r' ∧ part r' y) s.2
      (walkRows file info nativeLo draw (List.range' r n) cursor s).value.2 := by
  induction n generalizing r cursor s with
  | zero => exact Fills.refl fun i ⟨r', hr', _⟩ => absurd hr' List.not_mem_nil
  | succ n ih =>
    rw [List.range'_succ, walkRows, Reads.value_bind, bmpRowCursorNext_rle hrle (by omega) hcursor]
    dsimp only
    by_cases hlo : r < nativeLo
    · rw [if_pos hlo]
      refine (ih (by omega) rfl hcache).congr fun i => ?_
      simp only [List.mem_cons, exists_eq_or_imp]
      exact ⟨Or.inr, fun h => h.resolve_left fun hr => absurd hr.1 (Nat.not_le.mpr hlo)⟩
    · rw [if_neg hlo, Reads.value_bind]
      obtain ⟨hok, hfirst⟩ := hdraw s r (by omega) hcache
      refine (hfirst.comp (ih (by omega) rfl hok)).congr fun i => ?_
      simp only [List.mem_cons, exists_eq_or_imp, Nat.le_of_not_lt hlo, true_and]

/-! ## The reload index -/

/-- A cursor that is resumed from the checkpoint is the cursor in front of its row. -/
def Checkpoint.Resumable (file : Nat → Nat) (info : BmpInfo) (k : Checkpoint) : Prop :=
  k = (cursorAt file info k.nextRow).toCheckpoint

theorem resumable_cursorAt (r : Nat) :
    (cursorAt file info r).toCheckpoint.Resumable file info := by
  unfold Checkpoint.Resumable
  rw [cursorAt_nextRow]

theorem saveCheckpoints_resumable {rows : List (Option Nat)} {r : Nat} {state : List Checkpoint}
    (hstate : ∀ k ∈ state, k.Resumable file info) :
    ∀ k ∈ saveCheckpoints rows r (cursorAt file info r) state, k.Resumable file info := by
  intro k hk
  induction rows generalizing state with
  | nil => simp [saveCheckpoints] at hk
  | cons row rows ih =>
    cases state with
    | nil => simp [saveCheckpoints] at hk
    | cons k' state =>
      rw [saveCheckpoints, List.zipWith_cons_cons, List.mem_cons] at hk
      rcases hk with rfl | hk
      · split_ifs
        · exact resumable_cursorAt r
        · exact hstate k' List.mem_cons_self
      · exact ih (fun k hk => hstate k (List.mem_cons_of_mem k' hk)) hk

theorem indexRows_resumable (hrle : info.isRle = true) (rows : List (Option Nat)) {n r : Nat}
    (hn : r + n ≤ info.height) {state : List Checkpoint}
    (hstate : ∀ k ∈ state, k.Resumable file info) :
    ∀ k ∈ (indexRows file info rows (List.range' r n) (cursorAt file info r) state).value,
      k.Resumable file info := by
  induction n generalizing r state with
  | zero => exact hstate
  | succ n ih =>
    rw [List.range'_succ, indexRows, Reads.value_bind, bmpRowCursorNext_rle hrle (by omega) rfl]
    exact ih (by omega) (saveCheckpoints_resumable hstate)

theorem buildReloadIndex_resumable (hrle : info.isRle = true)
    (planeStride planeSize totalLen targetHeight : Nat) :
    ∀ state, (buildReloadIndex file info planeStride planeSize totalLen targetHeight).value =
        some state → ∀ k ∈ state, k.Resumable file info := by
  intro state hstate
  unfold buildReloadIndex at hstate
  dsimp only at hstate
  split_ifs at hstate with hpages
  rw [Reads.value_bind, Reads.value_pure, Option.some.injEq] at hstate
  subst hstate
  rw [List.range_eq_range' (n := info.height)]
  refine indexRows_resumable hrle _ (Nat.le_of_eq (Nat.zero_add _)) fun k hk => ?_
  obtain rfl := List.eq_of_mem_replicate hk
  exact resumable_cursorAt 0

theorem bestCheckpoint_spec {reload : List Checkpoint} {nativeLo : Nat} {k : Checkpoint}
    (h : bestCheckpoint reload nativeLo = some k) : k ∈ reload ∧ k.nextRow ≤ nativeLo := by
  have hfold : ∀ (l : List Checkpoint) (best : Option Checkpoint),
      (∀ k, best = some k → k ∈ reload ∧ k.nextRow ≤ nativeLo) → (∀ k ∈ l, k ∈ reload) →
      ∀ k, l.foldl (fun best c =>
        if c.nextRow ≤ nativeLo && best.all fun b => c.nextRow > b.nextRow then some c else best)
        best = some k → k ∈ reload ∧ k.nextRow ≤ nativeLo := by
    intro l
    induction l with
    | nil => exact fun best hbest _ => hbest
    | cons c l ih =>
      intro best hbest hl
      refine ih _ (fun k hk => ?_) fun k hk => hl k (List.mem_cons_of_mem c hk)
      dsimp only at hk
      split_ifs at hk with hc
      · obtain rfl := Option.some.inj hk
        rw [Bool.and_eq_true, decide_eq_true_eq] at hc
        exact ⟨hl c List.mem_cons_self, hc.1⟩
      · exact hbest k hk
  exact hfold reload none (fun k hk => absurd hk (by simp)) (fun k hk => hk) k h

/-- Wherever the walk starts, it starts with the cursor of that row, and not too late. -/
theorem walkStart_spec (hrle : info.isRle = true) {reload : Option (List Checkpoint)}
    (hreload : ∀ state, reload = some state → ∀ k ∈ state, k.Resumable file info)
    (nativeLo : Nat) :
    (walkStart info reload nativeLo).2 ≤ nativeLo ∧
      (walkStart info reload nativeLo).1.toCheckpoint =
        (cursorAt file info (walkStart info reload nativeLo).2).toCheckpoint := by
  unfold walkStart
  cases hbest : reload.bind fun state => bestCheckpoint state nativeLo with
  | none => exact ⟨Nat.zero_le _, rfl⟩
  | some k =>
    obtain ⟨state, hstate, hk⟩ := Option.bind_eq_some_iff.mp hbest
    obtain ⟨hmem, hle⟩ := bestCheckpoint_spec hk
    refine ⟨hle, ?_⟩
    show (bmpRowCursorResume info k).toCheckpoint = _
    rw [bmpRowCursorResume, if_pos hrle]
    exact hreload state hstate k hmem

theorem regenRleFragment_fills
    (hfrag : Fragment info targetWidth targetHeight plane fragStart fragEnd regenOffset)
    (hrle : info.isRle = true) (hbottom : info.topDown = false) {reload : Option (List Checkpoint)}
    (hreload : ∀ state, reload = some state → ∀ k ∈ state, k.Resumable file info)
    (hcache : s.1.Ok) :
    Fills (imageByte file info targetWidth targetHeight) regenOffset
      (fun y => fragStart ≤ y ∧ y < fragEnd) s.2
      (regenRleFragment file info reload targetWidth targetHeight ((targetWidth + 7) / 8) plane
        (plane * planeBytes targetWidth targetHeight) fragStart fragEnd regenOffset s).value.2 := by
  have hfits := hfrag.fits
  -- the rows of the fragment, in the output and in the file
  have hmono : ∀ y z, y ≤ z → rowOf targetWidth targetHeight plane y ≤
      rowOf targetWidth targetHeight plane z :=
    fun y z hyz => Nat.div_le_div_right (Nat.sub_le_sub_right hyz _)
  have hlast := hfrag.rowOf_lt (Nat.le_sub_one_of_lt hfrag.nonempty)
    (Nat.sub_lt (Nat.zero_lt_of_lt hfrag.nonempty) Nat.one_pos)
  obtain ⟨logical, hlogical⟩ : ∃ logical : Nat → Nat, ∀ y,
      rowOf targetWidth targetHeight plane y * info.height / targetHeight = logical y :=
    ⟨_, fun _ => rfl⟩
  have hlogicalMono : ∀ y z, y ≤ z → logical y ≤ logical z := by
    intro y z hyz
    rw [← hlogical, ← hlogical]
    exact Nat.div_le_div_right (Nat.mul_le_mul_right _ (hmono y z hyz))
  have hlogicalLt : logical (fragEnd - 1) < info.height := by
    rw [← hlogical]
    exact logicalRow_lt hfits hlast
  have hspan := hlogicalMono _ _ (Nat.le_sub_one_of_lt hfrag.nonempty)
  have hrows := hmono _ _ (Nat.le_sub_one_of_lt hfrag.nonempty)
  unfold regenRleFragment rleNativeRowRange
  dsimp only
  rw [← rowOf, ← rowOf, hfits.row (Nat.lt_of_le_of_lt hrows hlast), hfits.row hlast, hlogical,
    hlogical]
  generalize hnative : info.height - 1 - logical (fragEnd - 1) = nativeLo
  obtain ⟨hstart, hcursor⟩ := walkStart_spec hrle hreload nativeLo
  refine (walkRows_fills hrle (fun s r hr hok => rleNativeRow_fills hfrag hbottom hr hok)
    (by omega) hcursor hcache).congr fun i => ?_
  simp only [List.mem_range'_1, hlogical]
  constructor
  · rintro ⟨r, -, -, hi, -⟩
    exact hi
  · intro hi
    have hlow := hlogicalMono _ _ hi.1
    have hhigh := hlogicalMono _ _ (Nat.le_sub_one_of_lt hi.2)
    exact ⟨info.height - 1 - logical (regenOffset + i), by omega, by omega, hi, by omega⟩

end Fragments

/-! ## The whole request -/

/-- The indexes that a bitmap can have: none, or the one that `BuildReloadIndex` has built. -/
def storageReload (file : Nat → Nat) (info : BmpInfo) (targetWidth targetHeight : Nat) :
    List (Option (List Checkpoint)) :=
  let (planeStride, planeSize, totalLen) := computePlaneDimensions targetWidth targetHeight
  [none, (buildReloadIndex file info planeStride planeSize totalLen targetHeight).value]

section Request

variable {file : Nat → Nat} {info : BmpInfo}
variable {targetWidth targetHeight regenOffset regenSize : Nat}
variable {reload : Option (List Checkpoint)}

theorem storageReload_resumable (hrle : info.isRle = true)
    (hreload : reload ∈ storageReload file info targetWidth targetHeight) :
    ∀ state, reload = some state → ∀ k ∈ state, k.Resumable file info := by
  rintro state rfl
  simp only [storageReload, List.mem_cons, List.not_mem_nil, or_false, reduceCtorEq,
    false_or] at hreload
  exact buildReloadIndex_resumable hrle _ _ _ _ state hreload.symm

theorem regeneratePlane_fills (hfits : Fits info targetWidth targetHeight)
    (hbottom : info.isRle = true → info.topDown = false)
    (hreload : reload ∈ storageReload file info targetWidth targetHeight)
    (stack : Nat → DitherCache) (output : Nat → Nat) {plane : Nat} (hplane : plane < 4)
    (requestEnd : Nat) :
    Fills (imageByte file info targetWidth targetHeight) regenOffset
      (fun y => y < requestEnd ∧ plane * planeBytes targetWidth targetHeight ≤ y ∧
        y < plane * planeBytes targetWidth targetHeight + planeBytes targetWidth targetHeight)
      output
      (regeneratePlane file info reload targetWidth targetHeight regenOffset requestEnd stack output
        plane).value := by
  have hcache : (DitherCache.mk (stack plane).colour (stack plane).tile false).Ok :=
    fun h => absurd h Bool.false_ne_true
  unfold regeneratePlane
  rw [computePlaneDimensions_eq hfits]
  dsimp only
  rw [planeFragment_eq hfits hplane]
  dsimp only
  by_cases hempty : min requestEnd (plane * planeBytes targetWidth targetHeight +
      planeBytes targetWidth targetHeight) ≤
      max regenOffset (plane * planeBytes targetWidth targetHeight)
  · rw [if_pos hempty]
    exact Fills.refl fun i => by omega
  · rw [if_neg hempty]
    have hfrag := fragment_of_not_le hfits hplane hempty
    by_cases hrle : info.isRle = true
    · rw [if_pos hrle, Reads.value_bind, Reads.value_pure]
      refine (regenRleFragment_fills (s := (_, output)) hfrag hrle (hbottom hrle)
        (storageReload_resumable hrle hreload) hcache).congr fun i => ?_
      omega
    · rw [if_neg hrle, Reads.value_bind, Reads.value_pure]
      refine (regenRandomAccessFragment_fills (s := (_, output)) hfrag
        (Bool.eq_false_of_not_eq_true hrle) hcache).congr fun i => ?_
      omega

/-- Every byte of the request, and none behind it. -/
theorem regenerateCore_value (hparse : (bmpParse file).value = .ok info)
    (hfits : Fits info targetWidth targetHeight)
    (hreload : reload ∈ storageReload file info targetWidth targetHeight)
    (hrequest : regenOffset + regenSize < 4294967296)
    (stack : Nat → DitherCache) (output : Nat → Nat) (i : Nat) :
    (regenerateCore file targetWidth targetHeight reload regenOffset regenSize stack output).value
        i =
      if i < regenSize then imageByte file info targetWidth targetHeight (regenOffset + i)
      else output i := by
  have hbottom := (bmpParse_ok hparse).bottomUp
  have hwidth := hfits.targetWidth_pos
  have hheight := hfits.targetHeight_pos
  unfold regenerateCore
  dsimp only
  by_cases hsize : regenSize = 0
  · rw [if_pos (Or.inl hsize), Reads.value_pure, if_neg (by omega), if_neg (by omega)]
  rw [if_neg (by omega), Reads.value_bind, hparse]
  dsimp only
  rw [Reads.value_foldlM, Nat.mod_eq_of_lt hrequest]
  have hround : ∀ (s : Nat → Nat) (plane : Nat), plane ∈ List.range 4 → True →
      True ∧ Fills (imageByte file info targetWidth targetHeight) regenOffset
        (fun y => y < regenOffset + regenSize ∧
          plane * planeBytes targetWidth targetHeight ≤ y ∧
            y < plane * planeBytes targetWidth targetHeight + planeBytes targetWidth targetHeight)
        (id s)
        (id (regeneratePlane file info reload targetWidth targetHeight regenOffset
          (regenOffset + regenSize) stack s plane).value) :=
    fun s plane hplane _ => ⟨trivial, regeneratePlane_fills hfits hbottom hreload stack s
      (List.mem_range.mp hplane) _⟩
  obtain ⟨hin, hout⟩ := (Fills.foldl id (fun _ => True)
    (fun plane y => y < regenOffset + regenSize ∧
      plane * planeBytes targetWidth targetHeight ≤ y ∧
        y < plane * planeBytes targetWidth targetHeight + planeBytes targetWidth targetHeight)
    hround (s := fun i => if i < regenSize then 0 else output i) trivial).2 i
  by_cases hi : i < regenSize
  · rw [if_pos hi]
    by_cases hpast : 4 * planeBytes targetWidth targetHeight ≤ regenOffset + i
    · rw [imageByte_past hpast]
      refine (hout ?_).trans (if_pos hi)
      rintro ⟨plane, hplane, -, -, hlt⟩
      have h : plane * planeBytes targetWidth targetHeight ≤
          3 * planeBytes targetWidth targetHeight :=
        Nat.mul_le_mul_right _ (Nat.le_of_lt_succ (List.mem_range.mp hplane))
      omega
    · refine hin ⟨(regenOffset + i) / planeBytes targetWidth targetHeight, ?_, by omega, ?_, ?_⟩
      · exact List.mem_range.mpr ((Nat.div_lt_iff_lt_mul (by omega)).mpr (by omega))
      · exact Nat.div_mul_le_self _ _
      · have h := Nat.lt_mul_of_div_lt (Nat.lt_succ_self
          ((regenOffset + i) / planeBytes targetWidth targetHeight))
          (show 0 < planeBytes targetWidth targetHeight by omega)
        rwa [Nat.succ_mul] at h
  · rw [if_neg hi]
    refine (hout ?_).trans (if_neg hi)
    rintro ⟨plane, -, hlt, -⟩
    omega

end Request

/-! ## Splits of a range -/

/-- One call of `RegenerateCore`, with what its memory holds before. -/
structure Request where
  reload : Option (List Checkpoint)
  size : Nat
  stack : Nat → DitherCache
  output : Nat → Nat

/-- The bytes of requests that follow each other, from `off` on. -/
def regenerateAll (file : Nat → Nat) (targetWidth targetHeight : Nat) :
    Nat → List Request → List Nat
  | _, [] => []
  | off, q :: requests =>
    (List.range q.size).map
        (regenerateCore file targetWidth targetHeight q.reload off q.size q.stack q.output).value ++
      regenerateAll file targetWidth targetHeight (off + q.size) requests

section Splits

variable {file : Nat → Nat} {info : BmpInfo} {targetWidth targetHeight : Nat}

theorem regenerateAll_eq_image (hparse : (bmpParse file).value = .ok info)
    (hsizes : Sizes info targetWidth targetHeight) {requests : List Request}
    (hreload : ∀ q ∈ requests, q.reload ∈ storageReload file info targetWidth targetHeight)
    {off : Nat} (hend : off + (requests.map Request.size).sum < 4294967296) :
    regenerateAll file targetWidth targetHeight off requests =
      (List.range' off (requests.map Request.size).sum).map
        (imageByte file info targetWidth targetHeight) := by
  induction requests generalizing off with
  | nil => rfl
  | cons q requests ih =>
    rw [List.map_cons, List.sum_cons] at hend ⊢
    rw [regenerateAll, ih (fun q' hq' => hreload q' (List.mem_cons_of_mem q hq')) (by omega),
      ← List.range'_append_1, List.map_append, List.range'_eq_map_range (s := off), List.map_map]
    refine congrArg (· ++ _) (List.map_congr_left fun i hi => ?_)
    rw [regenerateCore_value hparse hsizes.fits (hreload q List.mem_cons_self) (by omega),
      if_pos (List.mem_range.mp hi), Function.comp_apply]

/-- The pages of a bitmap do not depend on how they are made: with the reload index or without it,
in one piece or in several, they are the dithered image with zeros behind it. -/
theorem regenerateAll_image (hparse : (bmpParse file).value = .ok info)
    (hsizes : Sizes info targetWidth targetHeight) :
    (∀ (off : Nat) (requests : List Request),
      (∀ q ∈ requests, q.reload ∈ storageReload file info targetWidth targetHeight) →
      off + (requests.map Request.size).sum < 4294967296 →
      regenerateAll file targetWidth targetHeight off requests =
        (List.range' off (requests.map Request.size).sum).map
          (imageByte file info targetWidth targetHeight)) ∧
    (∀ plane < 4, ∀ k < planeBytes targetWidth targetHeight, ∀ b < 8,
      (imageByte file info targetWidth targetHeight
          (plane * planeBytes targetWidth targetHeight + k)).testBit (7 - b) =
        imageBit file info targetWidth targetHeight plane (k / ((targetWidth + 7) / 8))
          (k % ((targetWidth + 7) / 8) * 8 + b)) ∧
    ∀ x, 4 * planeBytes targetWidth targetHeight ≤ x →
      imageByte file info targetWidth targetHeight x = 0 := by
  refine ⟨fun off requests hreload hend => regenerateAll_eq_image hparse hsizes hreload hend,
    fun plane hplane k hk b hb => ?_, fun x hx => imageByte_past hx⟩
  rw [imageByte_eq hplane (Nat.le_add_right _ _) (by omega), Nat.add_sub_cancel_left,
    testBit_packBits _ hb]

end Splits

/-- A file of one pixel, run-length encoded. -/
def onePixelFile : Nat → Nat :=
  fun x => [66, 77, 66, 0, 0, 0, 0, 0, 0, 0, 62, 0, 0, 0,
    40, 0, 0, 0, 1, 0, 0, 0, 1, 0, 0, 0, 1, 0, 8, 0, 1, 0, 0, 0, 4, 0, 0, 0, 0, 0, 0, 0, 0, 0, 0, 0,
    2, 0, 0, 0, 0, 0, 0, 0, 0, 0, 0, 0, 255, 255, 255, 0, 1, 1, 0, 1].getD x 0

def onePixelInfo : BmpInfo :=
  { width := 1, height := 1, topDown := false, bpp := 8, compression := 1, palette := 54,
    paletteCount := 2, rleData := 62, rleLen := 4 }

theorem bmpParse_onePixelFile : (bmpParse onePixelFile).value = .ok onePixelInfo := rfl

/-- Two calls, without the index and with it. -/
def onePixelRequests : List Request :=
  [⟨none, 3, fun _ => ⟨0, fun _ => 7, true⟩, fun _ => 9⟩,
    ⟨(buildReloadIndex onePixelFile onePixelInfo 2 4 16 2).value, 15,
      fun _ => ⟨0, fun _ => 7, true⟩, fun _ => 9⟩]

theorem regenerateAll_image_onePixelFile :
    regenerateAll onePixelFile 9 2 0 onePixelRequests =
      (List.range' 0 18).map (imageByte onePixelFile onePixelInfo 9 2) := by
  have hsizes : Sizes onePixelInfo 9 2 :=
    ⟨by decide, by decide, by decide, by decide, by decide, by decide, by decide⟩
  refine (regenerateAll_image bmpParse_onePixelFile hsizes).1 0 onePixelRequests ?_ (by decide)
  intro q hq
  rcases List.mem_pair.mp hq with rfl | rfl
  · exact List.mem_cons_self
  · exact List.mem_cons_of_mem _ List.mem_cons_self

end Nolrem.Bitmap
