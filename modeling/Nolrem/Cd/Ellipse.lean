import Nolrem.Cd.IntSqrt
import Nolrem.Cd.RegionRoundTrip

/-!
# Ellipses

`CdCreateEllipseRegion` of `kernel/CLIPDRAW/fully_pageable/ellipse.c`. No allocation of the region
fails.
-/

namespace Nolrem.Cd

open Nolrem.Lib

/-! ## The code -/

/-- Row `i`, `none` where it overflows or divides by zero. -/
def ellipseRow (x y width height : Int) (i : Nat) : Option Row := do
  let a := width.tdiv 2
  let b := height.tdiv 2
  let centerX ← cInt (x + a)
  let centerY ← cInt (y + b)
  let curY ← cInt (y + i)
  let dy ← cInt (curY - centerY)
  let b2 ← cInt (b * b)
  let dy2 ← cInt (dy * dy)
  let remaining ← cInt (b2 - dy2)
  if remaining < 0 then some ([], false)
  else if b2 = 0 then none
  else do
    let scaled ← cInt64 (1073741824 * remaining)
    -- the quotient is narrowed to `int`
    let dx2Scaled ← cInt (scaled.tdiv b2)
    let root ← integerSqrt dx2Scaled
    let product ← cInt (a * root)
    let dx := product / 32768
    if dx = 0 then some ([], false)
    else do
      let left ← cInt (centerX - dx)
      let right ← cInt (centerX + dx)
      some ([(toInt16 left, toInt16 right)], false)

/-- `CdCreateEllipseRegion`, `none` if it overflows or divides by zero -/
def cdCreateEllipseRegion (h : RegionHeap) (x y width height : Int) :
    Option (RegionHeap × Region) :=
  if width ≤ 0 ∨ height ≤ 0 then some (buildRegion h (toInt16 y) [])
  else do
    let rows ← (List.range height.toNat).mapM fun i : Nat => ellipseRow x y width height i
    some (buildRegion h (toInt16 y) rows)

/-! ## The rows -/

/-- How far the row at the distance `dy` reaches from the centre. -/
def reach (a b dy : Int) : Int :=
  a * (Nat.sqrt (1073741824 * (b * b - dy * dy) / (b * b)).toNat : Int) / 32768

/-- The spans of the row at the distance `dy`. -/
def ellipseSpans (x width height dy : Int) : List (Int × Int) :=
  if reach (width / 2) (height / 2) dy = 0 then []
  else
    [(x + width / 2 - reach (width / 2) (height / 2) dy,
      x + width / 2 + reach (width / 2) (height / 2) dy)]

section Reach

variable {a b dy dy' : Int}

theorem ratio_le (dy : Int) (hb : 1 ≤ b) :
    1073741824 * (b * b - dy * dy) / (b * b) ≤ 1073741824 := by
  have hbb : 0 < b * b := Int.mul_pos (by omega) (by omega)
  refine Int.ediv_le_of_le_mul hbb ?_
  have hdy := mul_self_nonneg dy
  omega

theorem root_le (dy : Int) (hb : 1 ≤ b) :
    Nat.sqrt (1073741824 * (b * b - dy * dy) / (b * b)).toNat ≤ 32768 := by
  have hratio := ratio_le dy hb
  have hsqrt := Nat.sqrt_le_sqrt
    (show (1073741824 * (b * b - dy * dy) / (b * b)).toNat ≤ 32768 * 32768 by omega)
  rwa [Nat.sqrt_eq] at hsqrt

theorem reach_nonneg (b dy : Int) (ha : 0 ≤ a) : 0 ≤ reach a b dy :=
  Int.ediv_nonneg (Int.mul_nonneg ha (Int.natCast_nonneg _)) (by decide)

theorem reach_le (dy : Int) (ha : 0 ≤ a) (hb : 1 ≤ b) : reach a b dy ≤ a := by
  have hroot := root_le dy hb
  refine Int.ediv_le_of_le_mul (by decide) (Int.mul_le_mul_of_nonneg_left ?_ ha)
  exact_mod_cast hroot

theorem reach_neg : reach a b (-dy) = reach a b dy := by
  unfold reach
  rw [neg_mul_neg]

/-- The row through the top does not reach anywhere. -/
theorem reach_self : reach a b b = 0 := by
  unfold reach
  rw [sub_self, mul_zero, Int.zero_ediv, Int.toNat_zero, Nat.sqrt_zero, Nat.cast_zero, mul_zero,
    Int.zero_ediv]

/-- The row reaches less far the farther away it is. -/
theorem reach_anti (ha : 0 ≤ a) (hb : 1 ≤ b) (h0 : 0 ≤ dy) (hle : dy ≤ dy') :
    reach a b dy' ≤ reach a b dy := by
  have hsq : dy * dy ≤ dy' * dy' := Int.mul_le_mul hle hle h0 (by omega)
  have hratio := Int.ediv_le_ediv (a := 1073741824 * (b * b - dy' * dy'))
    (b := 1073741824 * (b * b - dy * dy)) (Int.mul_pos (by omega) (by omega) : 0 < b * b)
    (by omega)
  have hroot := Nat.sqrt_le_sqrt (Int.toNat_le_toNat hratio)
  unfold reach
  refine Int.ediv_le_ediv (by decide) (Int.mul_le_mul_of_nonneg_left ?_ ha)
  exact_mod_cast hroot

end Reach

/-! ## The region -/

section Rows

variable {x y width height : Int}

/-- Nothing overflows in a row, and nothing is divided by zero from two rows on. -/
theorem ellipseRow_eq (hw : 1 ≤ width) (hh : 2 ≤ height) (hx : -32768 ≤ x)
    (hx' : x + width ≤ 32767) (hy : -32768 ≤ y) (hy' : y + height ≤ 32767) {i : Nat}
    (hi : i < height) :
    ellipseRow x y width height i = some (ellipseSpans x width height (i - height / 2), false) := by
  have ha : width.tdiv 2 = width / 2 := Int.tdiv_eq_ediv_of_nonneg (by omega)
  have hb : height.tdiv 2 = height / 2 := Int.tdiv_eq_ediv_of_nonneg (by omega)
  unfold ellipseRow ellipseSpans
  rw [ha, hb]
  have hdist : y + (i : Int) - (y + height / 2) = i - height / 2 := by omega
  have ha0 : 0 ≤ width / 2 ∧ width / 2 ≤ 32767 ∧ 2 * (width / 2) ≤ width := by omega
  have hb1 : 1 ≤ height / 2 ∧ height / 2 ≤ 32767 := by omega
  have hd : -(height / 2) ≤ i - height / 2 ∧ i - height / 2 ≤ height / 2 := by omega
  have hcx : FitsInt (x + width / 2) := ⟨by omega, by omega⟩
  have hcy : FitsInt (y + height / 2) := ⟨by omega, by omega⟩
  have hcur : FitsInt (y + i) := ⟨by omega, by omega⟩
  generalize width / 2 = a at *
  generalize height / 2 = b at *
  generalize (i : Int) - b = dy at *
  have hbb : b * b ≤ 32767 * 32767 := Int.mul_le_mul hb1.2 hb1.2 (by omega) (by decide)
  have hbb0 : 0 < b * b := Int.mul_pos (by omega) (by omega)
  have hdd : dy * dy ≤ b * b := by nlinarith
  have hdd0 := mul_self_nonneg dy
  have hratio := ratio_le dy hb1.1
  have hratio0 : 0 ≤ 1073741824 * (b * b - dy * dy) / (b * b) :=
    Int.ediv_nonneg (by omega) (Int.le_of_lt hbb0)
  have hroot := root_le dy hb1.1
  have hle := reach_le dy ha0.1 hb1.1
  have hnonneg := reach_nonneg b dy ha0.1
  simp only [Option.bind_eq_bind]
  rw [cInt_of_fits hcx, Option.bind_some, cInt_of_fits hcy, Option.bind_some, cInt_of_fits hcur,
    Option.bind_some, hdist, cInt_of_fits ⟨by omega, by omega⟩, Option.bind_some,
    cInt_of_fits ⟨by omega, by omega⟩, Option.bind_some, cInt_of_fits ⟨by omega, by omega⟩,
    Option.bind_some, cInt_of_fits ⟨by omega, by omega⟩, Option.bind_some, if_neg (by omega),
    if_neg (by omega), cInt64_of_fits (by omega) (by omega), Option.bind_some,
    Int.tdiv_eq_ediv_of_nonneg (by omega), cInt_of_fits ⟨by omega, by omega⟩, Option.bind_some,
    integerSqrt_eq (by omega), Option.bind_some]
  have hproduct : a * (Nat.sqrt (1073741824 * (b * b - dy * dy) / (b * b)).toNat : Int) ≤
      32767 * 32768 := Int.mul_le_mul ha0.2.1 (by exact_mod_cast hroot) (by omega) (by decide)
  have hproduct0 : 0 ≤ a * (Nat.sqrt (1073741824 * (b * b - dy * dy) / (b * b)).toNat : Int) :=
    Int.mul_nonneg ha0.1 (by omega)
  rw [cInt_of_fits ⟨by omega, by omega⟩, Option.bind_some]
  change (if reach a b dy = 0 then _ else (cInt (x + a - reach a b dy)).bind fun left =>
    (cInt (x + a + reach a b dy)).bind _) = _
  split_ifs with hzero
  · rfl
  · rw [cInt_of_fits ⟨by omega, by omega⟩, Option.bind_some, cInt_of_fits ⟨by omega, by omega⟩,
      Option.bind_some, toInt16_of_mem (by omega) (by omega), toInt16_of_mem (by omega) (by omega)]

/-- A single row divides by the square of a half-height that is zero. -/
theorem ellipseRow_one (hw : 1 ≤ width) (hx : -32768 ≤ x) (hx' : x + width ≤ 32767)
    (hy : -32768 ≤ y) (hy' : y ≤ 32767) : ellipseRow x y width 1 0 = none := by
  have ha : width.tdiv 2 = width / 2 := Int.tdiv_eq_ediv_of_nonneg (by omega)
  unfold ellipseRow
  simp only [Option.bind_eq_bind, ha, show Int.tdiv 1 2 = 0 from rfl]
  rw [cInt_of_fits ⟨by omega, by omega⟩, Option.bind_some, cInt_of_fits ⟨by omega, by omega⟩,
    Option.bind_some, cInt_of_fits ⟨by omega, by omega⟩, Option.bind_some,
    show y + ((0 : Nat) : Int) - (y + 0) = 0 by omega]
  rfl

end Rows

/--
A region inside of the rectangle whose rows are symmetric about the centre and do not shrink towards
it.
-/
structure IsEllipse (h : RegionHeap) (rgn : Region) (x y width height : Int) : Prop where
  inside : ∀ row, ∀ s ∈ regionRow h rgn row,
    y ≤ row ∧ row < y + height ∧ x ≤ s.1 ∧ s.2 ≤ x + width
  symmetric : ∀ row, regionRow h rgn row = [] ∨
    ∃ dx, regionRow h rgn row = [(x + width / 2 - dx, x + width / 2 + dx)]
  mirror : ∀ d, regionRow h rgn (y + height / 2 - d) = regionRow h rgn (y + height / 2 + d)
  grows : ∀ d d', 0 ≤ d → d ≤ d' → ∀ s' ∈ regionRow h rgn (y + height / 2 + d'),
    ∃ s ∈ regionRow h rgn (y + height / 2 + d), s.1 ≤ s'.1 ∧ s'.2 ≤ s.2

section Spans

variable {x width height : Int}

/-- A row has one span, unless it does not reach further than the centre. -/
theorem mem_ellipseSpans {d : Int} {s : Int × Int} : s ∈ ellipseSpans x width height d ↔
    reach (width / 2) (height / 2) d ≠ 0 ∧
      s = (x + width / 2 - reach (width / 2) (height / 2) d,
        x + width / 2 + reach (width / 2) (height / 2) d) := by
  unfold ellipseSpans
  split_ifs with hzero
  · exact iff_of_false List.not_mem_nil fun h => h.1 hzero
  · rw [List.mem_singleton, and_iff_right hzero]

theorem ellipseSpans_single (d : Int) : ellipseSpans x width height d = [] ∨
    ∃ dx, ellipseSpans x width height d = [(x + width / 2 - dx, x + width / 2 + dx)] := by
  unfold ellipseSpans
  split_ifs
  · exact Or.inl rfl
  · exact Or.inr ⟨_, rfl⟩

theorem ellipseSpans_neg (d : Int) :
    ellipseSpans x width height (-d) = ellipseSpans x width height d := by
  unfold ellipseSpans
  rw [reach_neg]

end Spans

section Region

variable (h : RegionHeap) {x y width height : Int} (hw : 1 ≤ width) (hx : -32768 ≤ x)
  (hx' : x + width ≤ 32767) (hy : -32768 ≤ y) (hy' : y + height ≤ 32767)

include hw hx hx' hy hy'

/-- The rows of the region, as far as the half-height from the centre -/
theorem cdCreateEllipseRegion_rows (hh : 2 ≤ height) :
    ∃ h' rgn, cdCreateEllipseRegion h x y width height = some (h', rgn) ∧
      (∀ row, y ≤ row ∧ row < y + height ∨ regionRow h' rgn row = []) ∧
      ∀ d, regionRow h' rgn (y + height / 2 + d) =
        if -(height / 2) ≤ d ∧ d ≤ height / 2 then ellipseSpans x width height d else [] := by
  have hrows := mapM_of_forall (l := List.range height.toNat)
    (f := fun i : Nat => ellipseRow x y width height i) fun i hi =>
      ellipseRow_eq hw hh hx hx' hy hy' (by have := List.mem_range.mp hi; omega)
  have hrow := regionRow_range h (n := height.toNat)
    (f := fun i : Nat => (ellipseSpans x width height (i - height / 2), false)) hy (by omega)
    (fun i _ => ?_) (fun _ _ => nofun)
  · have heq : cdCreateEllipseRegion h x y width height = some (buildRegion h y
        ((List.range height.toNat).map fun i : Nat =>
          (ellipseSpans x width height (i - height / 2), false))) := by
      unfold cdCreateEllipseRegion
      rw [if_neg (by omega), hrows, toInt16_of_mem hy (by omega)]
      rfl
    generalize buildRegion h y _ = built at heq hrow
    refine ⟨built.1, built.2, heq, fun row => ?_, fun d => ?_⟩
    · by_cases hin : y ≤ row ∧ row < y + height
      · exact Or.inl hin
      · rw [show row = y + (row - y) by omega, hrow, if_neg (by omega)]
        exact Or.inr rfl
    · rw [Int.add_assoc, hrow]
      by_cases hin : 0 ≤ height / 2 + d ∧ height / 2 + d < height.toNat
      · rw [if_pos hin, if_pos (by omega), Int.toNat_of_nonneg hin.1, add_sub_cancel_left]
      · rw [if_neg hin]
        split_ifs with hd
        · -- below an even height there is no row at the distance of the top, which is empty
          obtain rfl : d = height / 2 := by omega
          rw [ellipseSpans, if_pos reach_self]
        · rfl
  · have hb : 0 ≤ reach (width / 2) (height / 2) (i - height / 2) ∧
        reach (width / 2) (height / 2) (i - height / 2) ≤ width / 2 :=
      ⟨reach_nonneg _ _ (by omega), reach_le _ (by omega) (by omega)⟩
    refine ⟨fun s hs => ?_, ?_⟩
    · obtain ⟨-, rfl⟩ := mem_ellipseSpans.mp hs
      exact ⟨⟨by dsimp only; omega, by dsimp only; omega⟩, by dsimp only; omega,
        by dsimp only; omega⟩
    · obtain hnil | ⟨dx, hone⟩ := @ellipseSpans_single x width height (i - height / 2)
      · rw [hnil]
        exact Nat.zero_le _
      · rw [hone]
        show 1 ≤ 16383
        decide

theorem isEllipse_of_two_le (hh : 2 ≤ height) :
    ∃ h' rgn, cdCreateEllipseRegion h x y width height = some (h', rgn) ∧
      IsEllipse h' rgn x y width height := by
  obtain ⟨h', rgn, heq, hinside, hdist⟩ := cdCreateEllipseRegion_rows h hw hx hx' hy hy' hh
  have hbound (dy : Int) : 0 ≤ reach (width / 2) (height / 2) dy ∧
      reach (width / 2) (height / 2) dy ≤ width / 2 :=
    ⟨reach_nonneg _ _ (by omega), reach_le _ (by omega) (by omega)⟩
  have hat (row : Int) : regionRow h' rgn row =
      if -(height / 2) ≤ row - (y + height / 2) ∧ row - (y + height / 2) ≤ height / 2 then
        ellipseSpans x width height (row - (y + height / 2))
      else [] := by
    rw [← hdist, add_sub_cancel]
  refine ⟨h', rgn, heq, ⟨fun row s hs => ?_, fun row => ?_, fun d => ?_, ?_⟩⟩
  · obtain hrow | hnil := hinside row
    · rw [hat] at hs
      split_ifs at hs
      · have hb := hbound (row - (y + height / 2))
        obtain ⟨-, rfl⟩ := mem_ellipseSpans.mp hs
        exact ⟨hrow.1, hrow.2, by dsimp only; omega, by dsimp only; omega⟩
      · exact absurd hs List.not_mem_nil
    · rw [hnil] at hs
      exact absurd hs List.not_mem_nil
  · rw [hat]
    split_ifs
    · exact ellipseSpans_single _
    · exact Or.inl rfl
  · rw [Int.sub_eq_add_neg, hdist, hdist]
    exact if_congr (by omega) (ellipseSpans_neg d) rfl
  · intro d d' h0 hle s' hs'
    rw [hdist] at hs'
    split_ifs at hs' with hd'
    · -- the row at `d` reaches as far as that at `d'`, or further
      obtain ⟨hne, rfl⟩ := mem_ellipseSpans.mp hs'
      have hanti := reach_anti (a := width / 2) (b := height / 2) (by omega) (by omega) h0 hle
      have hb := hbound d'
      refine ⟨(x + width / 2 - reach (width / 2) (height / 2) d,
        x + width / 2 + reach (width / 2) (height / 2) d), ?_, ?_, ?_⟩
      · rw [hdist, if_pos (by omega)]
        exact mem_ellipseSpans.mpr ⟨by omega, rfl⟩
      · dsimp only
        omega
      · dsimp only
        omega
    · exact absurd hs' List.not_mem_nil

theorem cdCreateEllipseRegion_one (hh : height = 1) :
    cdCreateEllipseRegion h x y width height = none := by
  subst hh
  unfold cdCreateEllipseRegion
  rw [if_neg (by omega)]
  show ((List.range 1).mapM fun i : Nat => ellipseRow x y width 1 i).bind _ = none
  rw [show List.range 1 = [0] from rfl, List.mapM_cons, ellipseRow_one hw hx hx' hy (by omega)]
  rfl

end Region

/--
The region of an ellipse is inside of the rectangle, symmetric, and without a row that shrinks
towards the middle, exactly if the rectangle does not have a single row.
-/
theorem isEllipse_iff (h : RegionHeap) {x y width height : Int} (hw : 1 ≤ width) (hh : 1 ≤ height)
    (hx : -32768 ≤ x) (hx' : x + width ≤ 32767) (hy : -32768 ≤ y) (hy' : y + height ≤ 32767) :
    (∃ h' rgn, cdCreateEllipseRegion h x y width height = some (h', rgn) ∧
      IsEllipse h' rgn x y width height) ↔ height ≠ 1 := by
  constructor
  · rintro ⟨h', rgn, heq, -⟩ hone
    rw [cdCreateEllipseRegion_one h hw hx hx' hy hy' hone] at heq
    cases heq
  · exact fun hne => isEllipse_of_two_le h hw hx hx' hy hy' (by omega)

theorem isEllipse_iff_seven :
    (∃ h' rgn, cdCreateEllipseRegion ⟨fun _ => none, 0, fun i => i⟩ 3 4 10 7 = some (h', rgn) ∧
      IsEllipse h' rgn 3 4 10 7) ↔ (7 : Int) ≠ 1 :=
  isEllipse_iff _ (by decide) (by decide) (by decide) (by decide) (by decide) (by decide)

theorem not_isEllipse_one :
    ¬ ∀ (h : RegionHeap) (x y width height : Int), 1 ≤ width → 1 ≤ height → -32768 ≤ x →
      x + width ≤ 32767 → -32768 ≤ y → y + height ≤ 32767 →
      ∃ h' rgn, cdCreateEllipseRegion h x y width height = some (h', rgn) ∧
        IsEllipse h' rgn x y width height := by
  intro hall
  obtain ⟨h', rgn, heq, -⟩ := hall ⟨fun _ => none, 0, fun i => i⟩ 0 0 1 1 (by decide) (by decide)
    (by decide) (by decide) (by decide) (by decide)
  rw [cdCreateEllipseRegion_one _ (by decide) (by decide) (by decide) (by decide) (by decide) rfl]
    at heq
  cases heq

end Nolrem.Cd
