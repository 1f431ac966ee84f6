import Nolrem.Cd.IntSqrt
import Nolrem.Cd.RegionRoundTrip

/-!
# Rounded rectangles

`CdCreateRoundedRectRegion` of `kernel/CLIPDRAW/fully_pageable/rrect.c`. No allocation of the region
fails.
-/

namespace Nolrem.Cd

open Nolrem.Lib

/-! ## The code -/

/-- The radius that is used. -/
def clampRadius (width height radius : Int) : Int :=
  let maxR := (if width < height then width else height).tdiv 2
  let radius := if radius ≥ maxR then maxR - 1 else radius
  if radius < 0 then 0 else radius

/-- The inset at the distance `dy` from the centre of the corner circles. -/
def cornerInset (radius dy : Int) : Option Int := do
  let dy2 ← cInt (dy * dy)
  let r2 ← cInt (radius * radius)
  let root ← integerSqrt (r2 - dy2)
  cInt (radius - root)

/-- A row of the corners. -/
def cornerRow (x width radius dy : Int) : Option Row := do
  let dx ← cornerInset radius dy
  let left ← cInt (x + dx)
  let right ← cInt (x + width - dx)
  some ([(toInt16 left, toInt16 right)], false)

/-- A row of the straight middle. -/
def middleRow (x width : Int) (i : Nat) : Row :=
  ([(toInt16 x, toInt16 (x + width))], i != 0)

/-- `CdCreateRoundedRectRegion`, `none` if it overflows -/
def cdCreateRoundedRectRegion (h : RegionHeap) (x y width height radius : Int) :
    Option (RegionHeap × Region) :=
  let radius := clampRadius width height radius
  if width ≤ 0 ∨ height ≤ 0 then some (buildRegion h (toInt16 y) [])
  else do
    let top ← (List.range radius.toNat).mapM fun i : Nat => cornerRow x width radius (radius - i)
    let midHeight := height - 2 * radius
    let middle := (List.range midHeight.toNat).map (middleRow x width)
    let bottom ← (List.range radius.toNat).mapM fun i : Nat => cornerRow x width radius (i + 1)
    some (buildRegion h (toInt16 y) (top ++ middle ++ bottom))

/-! ## The rows -/

/-- `cornerInset` without the bounds of `int`. -/
def circleInset (radius dy : Int) : Int :=
  radius - (Nat.sqrt (radius * radius - dy * dy).toNat : Int)

/-- The inset of row `i`. -/
def rowInset (height radius i : Int) : Int :=
  if i < radius then circleInset radius (radius - i)
  else if i < height - radius then 0
  else circleInset radius (i - (height - radius) + 1)

section Inset

variable {width height radius x dy dy' : Int}

theorem circleInset_nonneg (dy : Int) (hr : 0 ≤ radius) : 0 ≤ circleInset radius dy := by
  have hmono : (radius * radius - dy * dy).toNat ≤ radius.toNat * radius.toNat := by
    have hdy := mul_self_nonneg dy
    rw [← Int.toNat_mul hr hr]
    omega
  have hsqrt := Nat.sqrt_le_sqrt hmono
  rw [Nat.sqrt_eq] at hsqrt
  unfold circleInset
  omega

theorem circleInset_le (radius dy : Int) : circleInset radius dy ≤ radius := by
  unfold circleInset
  omega

/-- The inset grows with the distance. -/
theorem circleInset_mono (h0 : 0 ≤ dy) (hle : dy ≤ dy') :
    circleInset radius dy ≤ circleInset radius dy' := by
  have hsq : dy * dy ≤ dy' * dy' := Int.mul_le_mul hle hle h0 (by omega)
  have hsqrt := Nat.sqrt_le_sqrt
    (show (radius * radius - dy' * dy').toNat ≤ (radius * radius - dy * dy).toNat by omega)
  unfold circleInset
  omega

/-- The radius is small enough for something to be left of each row and each column. -/
theorem clampRadius_spec (radius : Int) (hw : 1 ≤ width) (hh : 1 ≤ height) :
    0 ≤ clampRadius width height radius ∧ 2 * clampRadius width height radius < width ∧
      2 * clampRadius width height radius < height := by
  unfold clampRadius
  dsimp only
  rw [Int.tdiv_eq_ediv_of_nonneg (by split_ifs <;> omega)]
  split_ifs <;> omega

theorem cornerInset_eq (hr : 0 ≤ radius) (hr' : radius ≤ 32767) (h0 : 0 ≤ dy) (hdy : dy ≤ radius) :
    cornerInset radius dy = some (circleInset radius dy) := by
  have hr2 : radius * radius ≤ 32767 * 32767 := Int.mul_le_mul hr' hr' hr (by decide)
  have hdy2 : dy * dy ≤ radius * radius := Int.mul_le_mul hdy hdy h0 hr
  have hsq := mul_self_nonneg dy
  have hnonneg := circleInset_nonneg dy hr
  have hle := circleInset_le radius dy
  unfold cornerInset
  rw [cInt_of_fits ⟨by omega, by omega⟩, cInt_of_fits ⟨by omega, by omega⟩]
  simp only [Option.bind_eq_bind, Option.bind_some]
  rw [integerSqrt_eq (by omega), Option.bind_some]
  exact cInt_of_fits ⟨by unfold circleInset at hnonneg; omega, by omega⟩

theorem cornerRow_eq (hr : 0 ≤ radius) (hr' : 2 * radius < width) (hx : -32768 ≤ x)
    (hx' : x + width ≤ 32767) (h0 : 0 ≤ dy) (hdy : dy ≤ radius) :
    cornerRow x width radius dy =
      some ([(x + circleInset radius dy, x + width - circleInset radius dy)], false) := by
  have hnonneg := circleInset_nonneg dy hr
  have hle := circleInset_le radius dy
  unfold cornerRow
  rw [cornerInset_eq hr (by omega) h0 hdy]
  simp only [Option.bind_eq_bind, Option.bind_some]
  rw [cInt_of_fits ⟨by omega, by omega⟩, Option.bind_some, cInt_of_fits ⟨by omega, by omega⟩,
    Option.bind_some, toInt16_of_mem (by omega) (by omega), toInt16_of_mem (by omega) (by omega)]

end Inset

/-! ## The region -/

/-- A region with one span in each row, `inset` away from both edges of the rectangle. -/
structure IsRoundedRect (h : RegionHeap) (rgn : Region) (x y width height : Int)
    (inset : Int → Int) : Prop where
  row : ∀ i, 0 ≤ i → i < height →
    regionRow h rgn (y + i) = [(x + inset i, x + width - inset i)]
  outside : ∀ i, i < 0 ∨ height ≤ i → regionRow h rgn (y + i) = []
  inside : ∀ i, 0 ≤ i → i < height → 0 ≤ inset i
  nonempty : ∀ i, 0 ≤ i → i < height → x + inset i < x + width - inset i
  mirror : ∀ i, 0 ≤ i → i < height → inset (height - 1 - i) = inset i
  grows : ∀ i j, 0 ≤ i → i ≤ j → 2 * j ≤ height - 1 → inset j ≤ inset i

/-- The row that the loops give for `i`. -/
def roundedRow (x width height radius : Int) (i : Nat) : Row :=
  ([(x + rowInset height radius i, x + width - rowInset height radius i)],
    decide (radius < i ∧ i < height - radius))

section Rows

variable {x y width height radius : Int}

/-- The three loops are one. -/
theorem append_rounded {f g g' : Nat → Row} (hr : 0 ≤ radius) (hh : 2 * radius < height)
    (hf : ∀ i : Nat, i < radius → f i = roundedRow x width height radius i)
    (hg : ∀ i : Nat, i < height - 2 * radius →
      g i = roundedRow x width height radius (radius.toNat + i))
    (hg' : ∀ i : Nat, i < radius →
      g' i = roundedRow x width height radius ((height - radius).toNat + i)) :
    (List.range radius.toNat).map f ++ (List.range (height - 2 * radius).toNat).map g ++
      (List.range radius.toNat).map g' =
        (List.range height.toNat).map (roundedRow x width height radius) := by
  have hsplit : height.toNat = radius.toNat + (height - 2 * radius).toNat + radius.toNat := by omega
  have hmid : radius.toNat + (height - 2 * radius).toNat = (height - radius).toNat := by omega
  rw [hsplit, List.range_add, List.range_add, List.map_append, List.map_append, List.map_map,
    List.map_map, hmid]
  refine congrArg₂ _ (congrArg₂ _ ?_ ?_) ?_ <;> refine List.map_congr_left fun i hi => ?_
  all_goals rw [List.mem_range] at hi
  · exact hf i (by omega)
  · exact hg i (by omega)
  · exact hg' i (by omega)

theorem rowInset_spec (height : Int) (hr : 0 ≤ radius) (i : Int) :
    0 ≤ rowInset height radius i ∧ rowInset height radius i ≤ radius := by
  unfold rowInset
  split_ifs
  · exact ⟨circleInset_nonneg _ hr, circleInset_le ..⟩
  · exact ⟨Int.le_refl 0, hr⟩
  · exact ⟨circleInset_nonneg _ hr, circleInset_le ..⟩

/-- A row of the bottom is as far from the centre of its circles as the mirrored row of the top. -/
theorem rowInset_mirror (hh : 2 * radius < height) (i : Int) :
    rowInset height radius (height - 1 - i) = rowInset height radius i := by
  unfold rowInset
  by_cases h1 : i < radius
  · rw [if_neg (by omega), if_neg (by omega), if_pos h1]
    exact congrArg _ (by omega)
  by_cases h2 : i < height - radius
  · rw [if_neg (by omega), if_pos (by omega), if_neg h1, if_pos h2]
  · rw [if_pos (by omega), if_neg h1, if_neg h2]
    exact congrArg _ (by omega)

theorem rowInset_middle {i : Int} (h1 : radius ≤ i) (h2 : i < height - radius) :
    rowInset height radius i = 0 := by
  unfold rowInset
  rw [if_neg (by omega), if_pos h2]

theorem rowInset_anti (hr : 0 ≤ radius) {i j : Int} (hij : i ≤ j)
    (hj : 2 * j ≤ height - 1) : rowInset height radius j ≤ rowInset height radius i := by
  by_cases h1 : j < radius
  · unfold rowInset
    rw [if_pos h1, if_pos (by omega)]
    exact circleInset_mono (by omega) (by omega)
  · rw [rowInset_middle (by omega) (by omega)]
    exact (rowInset_spec _ hr i).1

/-- The loops give `roundedRow`. -/
theorem cdCreateRoundedRectRegion_eq (h : RegionHeap) {width height : Int} (radius : Int)
    (hw : 1 ≤ width) (hh : 1 ≤ height) (hx : -32768 ≤ x) (hx' : x + width ≤ 32767) (hy : -32768 ≤ y)
    (hy' : y + height ≤ 32767) :
    cdCreateRoundedRectRegion h x y width height radius =
      some (buildRegion h y ((List.range height.toNat).map
        (roundedRow x width height (clampRadius width height radius)))) := by
  obtain ⟨hr, hrw, hrh⟩ := clampRadius_spec radius hw hh
  unfold cdCreateRoundedRectRegion
  dsimp only
  generalize clampRadius width height radius = r at hr hrw hrh ⊢
  have htop := mapM_of_forall (l := List.range r.toNat)
    (f := fun i : Nat => cornerRow x width r (r - i))
    fun i hi => cornerRow_eq hr hrw hx hx' (by have := List.mem_range.mp hi; omega) (by omega)
  have hbottom := mapM_of_forall (l := List.range r.toNat)
    (f := fun i : Nat => cornerRow x width r (i + 1))
    fun i hi => cornerRow_eq hr hrw hx hx' (by omega) (by have := List.mem_range.mp hi; omega)
  rw [if_neg (by omega), htop, hbottom, toInt16_of_mem hy (by omega)]
  simp only [Option.bind_eq_bind, Option.bind_some]
  congr 2
  refine append_rounded hr hrh (fun i hi => ?_) (fun i hi => ?_) fun i hi => ?_
  · unfold roundedRow rowInset
    rw [if_pos hi, decide_eq_false (by omega)]
  · unfold roundedRow middleRow
    rw [rowInset_middle (by omega) (by omega), Int.add_zero, Int.sub_zero,
      toInt16_of_mem (by omega) (by omega), toInt16_of_mem (by omega) (by omega)]
    congr 1
    rw [Bool.eq_iff_iff, bne_iff_ne, decide_eq_true_iff]
    omega
  · unfold roundedRow rowInset
    rw [if_neg (by omega), if_neg (by omega), decide_eq_false (by omega)]
    have hdist : (((height - r).toNat + i : Nat) : Int) - (height - r) + 1 = i + 1 := by omega
    rw [hdist]

end Rows

/--
**Rounded rectangles.** Every row of the rectangle has one span, the same distance away from both
edges; the rows are the same from below as from above, and grow towards the middle.
-/
theorem roundedRect_rows (h : RegionHeap) {x y width height : Int} (radius : Int) (hw : 1 ≤ width)
    (hh : 1 ≤ height) (hx : -32768 ≤ x) (hx' : x + width ≤ 32767) (hy : -32768 ≤ y)
    (hy' : y + height ≤ 32767) :
    ∃ h' rgn inset, cdCreateRoundedRectRegion h x y width height radius = some (h', rgn) ∧
      IsRoundedRect h' rgn x y width height inset := by
  obtain ⟨hr, hrw, hrh⟩ := clampRadius_spec radius hw hh
  have heq := cdCreateRoundedRectRegion_eq h radius hw hh hx hx' hy hy'
  generalize clampRadius width height radius = r at hr hrw hrh heq
  have hspec := rowInset_spec height hr
  have hrow := regionRow_range h (n := height.toNat) (f := roundedRow x width height r) hy
    (by omega) (fun i _ => ?_) fun i hi hflag => ?_
  · generalize buildRegion h y _ = built at heq hrow
    refine ⟨built.1, built.2, rowInset height r, heq, ⟨fun i h0 h1 => ?_, fun i hi => ?_,
      fun i _ _ => ?_, fun i _ _ => ?_, fun i _ _ => rowInset_mirror hrh i,
      fun i j _ => rowInset_anti hr⟩⟩
    · rw [hrow, if_pos (by omega), roundedRow, Int.toNat_of_nonneg h0]
    · rw [hrow, if_neg (by omega)]
    · exact (hspec i).1
    · have := (hspec i).2
      omega
  · have hbound := hspec i
    refine ⟨?_, by show 1 ≤ 16383; decide⟩
    rintro s hs
    obtain rfl := List.mem_singleton.mp hs
    exact ⟨⟨by dsimp only; omega, by dsimp only; omega⟩, by dsimp only; omega, by dsimp only; omega⟩
  · -- rows that are known to be the same are in the middle
    obtain ⟨h1, h2⟩ := of_decide_eq_true hflag
    unfold roundedRow
    rw [rowInset_middle (by omega) h2, rowInset_middle (by omega) (by omega)]

theorem roundedRect_rows_corner :
    ∃ h' rgn inset, cdCreateRoundedRectRegion ⟨fun _ => none, 0, fun i => i⟩ (-5) 2 9 7 100 =
        some (h', rgn) ∧ IsRoundedRect h' rgn (-5) 2 9 7 inset :=
  roundedRect_rows _ 100 (by decide) (by decide) (by decide) (by decide) (by decide) (by decide)

end Nolrem.Cd
