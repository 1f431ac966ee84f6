import Nolrem.Cd.CombineRows
import Nolrem.Cd.RectRegion

/-!
# The pixels of a combination

Of two regions whose bands are in order, `CdGetRegionCombinationEx` makes a region that has exactly
the pixels that its mode asks for.
-/

namespace Nolrem.Cd

open Nolrem.Lib (InSpans)

/-! ## Pixels -/

/-- The pixels of bands, row by row. -/
def pixelsOf (l : List Band) : Set (Int × Int) := { p | InSpans (rowSpans l p.2) p.1 }

theorem inSpans_rowSpans {l : List Band} {x y : Int} :
    InSpans (rowSpans l y) x ↔ ∃ b ∈ l, b.y0 ≤ y ∧ y < b.y1 ∧ ∃ s ∈ b.spans, s.1 ≤ x ∧ x < s.2 := by
  simp only [InSpans, rowSpans, List.mem_flatMap, List.mem_filter, decide_eq_true_eq]
  constructor
  · rintro ⟨s, ⟨b, ⟨hb, h0, h1⟩, hs⟩, hx⟩
    exact ⟨b, hb, h0, h1, s, hs, hx⟩
  · rintro ⟨b, hb, h0, h1, s, hs, hx⟩
    exact ⟨s, ⟨b, ⟨hb, h0, h1⟩, hs⟩, hx⟩

/-- `trans_x` of the DC, or 0 -/
def shiftX (dc : Option ScaleDc) : Int := mapX dc 0

/-- `trans_y` of the DC, or 0 -/
def shiftY (dc : Option ScaleDc) : Int := mapY dc 0

theorem mapX_eq (dc : Option ScaleDc) (x : Int) : mapX dc x = x + shiftX dc := by
  simp [mapX, shiftX]

theorem mapY_eq (dc : Option ScaleDc) (y : Int) : mapY dc y = y + shiftY dc := by
  simp [mapY, shiftY]

/-- A DC moves the pixels of the region. -/
theorem mem_pixelsOf_placed {h : RegionHeap} {rgn : Region} {dc : Option ScaleDc} {p : Int × Int} :
    p ∈ pixelsOf (placed dc (h.data rgn)) ↔ (p.1 - shiftX dc, p.2 - shiftY dc) ∈ pixels h rgn := by
  show InSpans _ _ ↔ _
  rw [inSpans_rowSpans, pixels, Set.mem_ofPred_eq]
  cases h.data rgn with
  | none => simp [placed]
  | some d =>
    simp only [placed, List.mem_map, exists_exists_and_eq_and, Option.some.injEq, exists_eq_left',
      inBands, place, placeSpan, mapX_eq, mapY_eq]
    refine exists_congr fun b => and_congr_right fun _ => ?_
    refine and_congr (by omega) (and_congr (by omega) (exists_congr fun s => ?_))
    exact and_congr_right fun _ => by constructor <;> (rintro ⟨h0, h1⟩; constructor <;> omega)

/-! ## The combination -/

/-- What a mode says about the sets. -/
def CombineMode.combined (mode : CombineMode) (s t : Set (Int × Int)) : Set (Int × Int) :=
  match mode with
  | .intersect => s ∩ t
  | .union => s ∪ t
  | .xor => (s \ t) ∪ (t \ s)
  | .difference => s \ t
  | .other => ∅

open Classical in
theorem mem_combined {mode : CombineMode} {s t : Set (Int × Int)} {p : Int × Int} :
    p ∈ mode.combined s t ↔
      checkRegionCondition mode (decide (p ∈ s)) (decide (p ∈ t)) = true := by
  cases mode with
  | intersect => simp [CombineMode.combined, checkRegionCondition]
  | union => simp [CombineMode.combined, checkRegionCondition]
  | xor =>
    by_cases hs : p ∈ s <;> by_cases ht : p ∈ t <;>
      simp [CombineMode.combined, checkRegionCondition, hs, ht]
  | difference => simp [CombineMode.combined, checkRegionCondition]
  | other => simp [CombineMode.combined, checkRegionCondition]

/-- The pixels of a set that is moved by the translation of a DC. -/
def moved (dc : Option ScaleDc) (s : Set (Int × Int)) : Set (Int × Int) :=
  { p | (p.1 - shiftX dc, p.2 - shiftY dc) ∈ s }

theorem moved_none (s : Set (Int × Int)) : moved none s = s := by
  ext p
  simp [moved, shiftX, shiftY, mapX, mapY]

/-- The region is there, and has bands, which are in order where the DC puts them. -/
structure Banded (h : RegionHeap) (dc : Option ScaleDc) (rgn : Region) : Prop where
  not_bad : cdIsRegionBad rgn = false
  not_empty : cdIsRegionEmpty h rgn = false
  tidy : Tidy (placed dc (h.data rgn))
  fits : ∀ d, h.data rgn = some d → FitsDc dc d.bands

section Combination

variable {h : RegionHeap} {a b : Region} {dc : Option ScaleDc}

/--
**Combination.** Of two regions that are not empty, `CdGetRegionCombinationEx` makes one that has
exactly the pixels that the mode asks for, the second region being where the DC puts it, as long as
no row of both has more spans than a band can hold.
-/
theorem combination_pixels (mode : CombineMode) (ha : Banded h none a) (hb : Banded h dc b)
    (hcount : ∀ y, (rowSpans (placed none (h.data a)) y).length +
      (rowSpans (placed dc (h.data b)) y).length ≤ 16383) :
    let r := cdGetRegionCombinationEx h mode a b dc
    pixels r.1 r.2 = mode.combined (pixels h a) (moved dc (pixels h b)) := by
  intro r
  obtain ⟨y0, rows, hbuild, hgood, hrows⟩ :=
    combineBands_rows h ha.tidy hb.tidy ha.fits hb.fits hcount mode
  have hr : r = buildRegion h y0 rows := by
    rw [← hbuild]
    show cdGetRegionCombinationEx h mode a b dc = _
    simp only [cdGetRegionCombinationEx, ha.not_bad, hb.not_bad, ha.not_empty, hb.not_empty,
      Bool.or_self, Bool.false_eq_true, if_false]
  rw [hr]
  ext ⟨x, y⟩
  have hrow := regionRow_buildRegion h hgood.start hgood.finish hgood.fits hgood.known y
  classical
  rw [mem_pixels, hrow, hrows, mem_combined]
  show InSpans _ x ↔ _
  rw [Lib.inSpans_combine (checkRegionCondition_false mode) (ha.tidy.parted_row y)
    (hb.tidy.parted_row y)]
  have hpa : InSpans (rowSpans (placed none (h.data a)) y) x ↔ (x, y) ∈ moved none (pixels h a) :=
    mem_pixelsOf_placed (p := (x, y))
  rw [moved_none] at hpa
  have hpb : InSpans (rowSpans (placed dc (h.data b)) y) x ↔ (x, y) ∈ moved dc (pixels h b) :=
    mem_pixelsOf_placed (p := (x, y))
  simp only [hpa, hpb]

end Combination

/-! ## Two squares -/

/-- A square at 0, 0 -/
def square : RegionHeap × Region := cdCreateRectRegion noBlocks 0 0 10 10

theorem placed_square (dc : Option ScaleDc) :
    placed dc (square.1.data square.2) =
      [{ y0 := mapY dc 0, y1 := mapY dc 10, spans := [(mapX dc 0, mapX dc 10)] }] := by
  show (rectData _ 0 0 10 10).bands.map _ = _
  rw [rectData_bands]
  show [place _ _ _] = _
  simp [place, placeSpan, rectData, toInt16_of_mem]

theorem banded_square {dc : Option ScaleDc} (hx : shiftX dc ∈ Set.Icc 0 100)
    (hy : shiftY dc ∈ Set.Icc 0 100) : Banded square.1 dc square.2 := by
  obtain ⟨hx0, hx1⟩ := hx
  obtain ⟨hy0, hy1⟩ := hy
  refine ⟨rfl, rfl, ?_, ?_⟩
  · rw [placed_square]
    simp only [mapX_eq, mapY_eq]
    refine ⟨?_, List.pairwise_singleton _ _, ?_, ?_, ?_⟩ <;>
      rw [List.forall_mem_singleton]
    · show 0 + shiftY dc < 10 + shiftY dc
      omega
    · refine ⟨List.cons_ne_nil _ _, Lib.parted_cons.mpr ⟨?_, nofun, List.Pairwise.nil⟩⟩
      show 0 + shiftX dc < 10 + shiftX dc
      omega
    · refine ⟨⟨?_, ?_⟩, ?_, ?_⟩ <;> dsimp only <;> omega
    · refine List.forall_mem_singleton.mpr ⟨⟨?_, ?_⟩, ?_, ?_⟩ <;> dsimp only <;> omega
  · rintro d hd
    obtain rfl : rectData _ 0 0 10 10 = d := Option.some_inj.mp hd
    rw [FitsDc, rectData_bands, List.forall_mem_singleton]
    have h0 : toInt16 0 = 0 := toInt16_of_mem (by decide) (by decide)
    have h10 : toInt16 (0 + 10) = 10 := toInt16_of_mem (by decide) (by decide)
    simp only [mapY_eq, h0, h10]
    refine ⟨⟨?_, ?_⟩, ?_, ?_⟩ <;> omega

theorem length_rowSpans_square (dc : Option ScaleDc) (y : Int) :
    (rowSpans (placed dc (square.1.data square.2)) y).length ≤ 1 := by
  rw [placed_square, rowSpans, List.filter_cons, List.filter_nil]
  split_ifs
  · exact le_rfl
  · exact Nat.zero_le _

theorem combination_pixels_square :
    let r := cdGetRegionCombinationEx square.1 .difference square.2 square.2
      (some { transX := 6, transY := 6 })
    pixels r.1 r.2 = pixels square.1 square.2 \
      moved (some { transX := 6, transY := 6 }) (pixels square.1 square.2) :=
  combination_pixels .difference (banded_square (by decide) (by decide))
    (banded_square (by decide) (by decide)) fun y =>
      (Nat.add_le_add (length_rowSpans_square none y) (length_rowSpans_square _ y)).trans
        (show 1 + 1 ≤ 16383 by decide)

end Nolrem.Cd
