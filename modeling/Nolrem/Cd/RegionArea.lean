import Mathlib.Data.Finset.Prod
import Mathlib.Order.Interval.Finset.Defs
import Mathlib.Data.Int.Interval
import Mathlib.Data.Finset.Card
import Nolrem.Cd.RegionRoundTrip

/-!
# The area of a region

A region never has more pixels than the rows it is built from, however many they are: rows that
leave the 16 bits of a coordinate, and bands that `num_bands` cannot count, are lost.
-/

namespace Nolrem.Cd

open Nolrem.Lib

/-! ## Areas -/

/-- The number of pixels of a row, if its spans do not overlap. -/
def spansArea (points : List (Int × Int)) : Nat := (points.map fun s => (s.2 - s.1).toNat).sum

def bandArea (b : Band) : Nat := (b.y1 - b.y0).toNat * spansArea b.spans

def bandsArea (bs : List Band) : Nat := (bs.map bandArea).sum

noncomputable def spansPoints (y0 y1 : Int) : List (Int × Int) → Finset (Int × Int)
  | [] => ∅
  | s :: points => Finset.Ico s.1 s.2 ×ˢ Finset.Ico y0 y1 ∪ spansPoints y0 y1 points

noncomputable def bandsPoints : List Band → Finset (Int × Int)
  | [] => ∅
  | b :: bs => spansPoints b.y0 b.y1 b.spans ∪ bandsPoints bs

theorem spansArea_cons (s : Int × Int) (points : List (Int × Int)) :
    spansArea (s :: points) = (s.2 - s.1).toNat + spansArea points := List.sum_cons

theorem bandsArea_cons (b : Band) (bs : List Band) :
    bandsArea (b :: bs) = bandArea b + bandsArea bs := List.sum_cons

theorem bandsArea_concat (b : Band) (bs : List Band) :
    bandsArea (bs ++ [b]) = bandsArea bs + bandArea b := by
  unfold bandsArea
  rw [List.map_append, List.sum_append, List.map_singleton, List.sum_singleton]

theorem card_spansPoints_le (y0 y1 : Int) (points : List (Int × Int)) :
    (spansPoints y0 y1 points).card ≤ (y1 - y0).toNat * spansArea points := by
  induction points with
  | nil => exact Nat.zero_le _
  | cons s points ih =>
    rw [spansPoints, spansArea_cons, Nat.mul_add]
    refine Nat.le_trans (Finset.card_union_le _ _) (Nat.add_le_add ?_ ih)
    rw [Finset.card_product, Int.card_Ico, Int.card_Ico, Nat.mul_comm]

theorem card_bandsPoints_le (bs : List Band) : (bandsPoints bs).card ≤ bandsArea bs := by
  induction bs with
  | nil => exact Nat.zero_le _
  | cons b bs ih =>
    rw [bandsPoints, bandsArea_cons]
    exact Nat.le_trans (Finset.card_union_le _ _)
      (Nat.add_le_add (card_spansPoints_le _ _ _) ih)

theorem mem_spansPoints {y0 y1 : Int} {points : List (Int × Int)} {p : Int × Int} :
    p ∈ spansPoints y0 y1 points ↔ y0 ≤ p.2 ∧ p.2 < y1 ∧ ∃ s ∈ points, s.1 ≤ p.1 ∧ p.1 < s.2 := by
  induction points with
  | nil => simp [spansPoints]
  | cons s points ih =>
    rw [spansPoints, Finset.mem_union, ih, Finset.mem_product, Finset.mem_Ico, Finset.mem_Ico,
      List.exists_mem_cons_iff]
    tauto

theorem mem_bandsPoints {bs : List Band} {p : Int × Int} :
    p ∈ bandsPoints bs ↔ inBands bs p := by
  induction bs with
  | nil => simp [bandsPoints, inBands]
  | cons b bs ih =>
    rw [bandsPoints, Finset.mem_union, ih, mem_spansPoints]
    unfold inBands
    rw [List.exists_mem_cons_iff]

/-- Bands that are left out do not add to the area. -/
theorem bandsArea_take_le (n : Nat) (bs : List Band) : bandsArea (bs.take n) ≤ bandsArea bs := by
  rw [← List.take_append_drop n bs]
  unfold bandsArea
  rw [List.map_append, List.sum_append, List.take_append_drop]
  exact Nat.le_add_right _ _

/-! ## The area while a region is built -/

section Band

variable {c : BuildContext} {points : List (Int × Int)}

theorem bandArea_toBand_le (hfits : Fits c points) :
    bandArea (c.toBand points) ≤ c.currentHeight * spansArea points := by
  obtain ⟨k, hk, hlow, hhigh⟩ := toInt16_spec (c.prevY1 + c.currentHeight)
  obtain ⟨k', hk', hlow', hhigh'⟩ := toInt16_spec c.prevY1
  have hstart := hfits.start
  refine Nat.mul_le_mul_right _ ?_
  show (toInt16 (c.prevY1 + c.currentHeight) - c.prevY1).toNat ≤ c.currentHeight
  omega

/-- A band that leaves the 16 bits has no pixels. -/
theorem bandArea_toBand_of_gt (hfits : Fits c points) (hheight : c.currentHeight ≤ 32000)
    (hgt : 32767 < c.prevY1 + c.currentHeight) : bandArea (c.toBand points) = 0 := by
  obtain ⟨k, hk, hlow, hhigh⟩ := toInt16_spec (c.prevY1 + c.currentHeight)
  obtain ⟨k', hk', hlow', hhigh'⟩ := toInt16_spec c.prevY1
  have hstart := hfits.start
  have hzero : (toInt16 (c.prevY1 + c.currentHeight) - c.prevY1).toNat = 0 := by omega
  show (toInt16 (c.prevY1 + c.currentHeight) - c.prevY1).toNat * _ = 0
  rw [hzero, Nat.zero_mul]

end Band

/-- A row for `AddScanline` that has pixels. -/
structure Solid (points : List (Int × Int)) : Prop where
  narrow : Narrow points
  length : points.length ≤ 16383
  pos : 0 < spansArea points

/-- The area of rows. -/
def rowsArea (rows : List (List (Int × Int))) : Nat := (rows.map spansArea).sum

/--
What the bands have in area is not more than that of the rows, and it is less once a row has left
the 16 bits.
-/
structure Weighed (y0 : Int) (rows : List (List (Int × Int))) (r : Building)
    (points : List (Int × Int)) (bytes : List Nat) (bs : List Band) : Prop where
  current : r.ctxt.currentPoints = some points
  encoded : Encoded r bytes bs
  fits : Fits r.ctxt points
  pos : 0 < spansArea points
  height : r.ctxt.currentHeight ≤ 32000
  area : bandsArea bs + r.ctxt.currentHeight * spansArea points ≤ rowsArea rows
  lost : r.ctxt.prevY1 + r.ctxt.currentHeight = y0 + rows.length ∨
    bandsArea bs + r.ctxt.currentHeight * spansArea points < rowsArea rows

section Step

variable {y0 : Int} {rows : List (List (Int × Int))} {row points : List (Int × Int)} {r : Building}
  {bytes : List Nat} {bs : List Band}

theorem rowsArea_concat (rows : List (List (Int × Int))) (row : List (Int × Int)) :
    rowsArea (rows ++ [row]) = rowsArea rows + spansArea row := by
  unfold rowsArea
  rw [List.map_append, List.sum_append, List.map_singleton, List.sum_singleton]

theorem Solid.ne_nil (h : Solid row) : row ≠ [] := by
  rintro rfl
  exact absurd h.pos (Nat.lt_irrefl 0)

/-- What the encoder has once the rows that are kept are encoded. -/
theorem Weighed.flush (h : Weighed y0 rows r points bytes bs) :
    ∃ bytes' bs', Encoded (r.flush points) bytes' bs' ∧ bandsArea bs' ≤ rowsArea rows ∧
      ((r.flush points).ctxt.prevY1 = y0 + rows.length ∨ bandsArea bs' < rowsArea rows) ∧
      toInt16 (r.flush points).ctxt.prevY1 = (r.flush points).ctxt.prevY1 ∧
      (32767 < y0 + rows.length → bandsArea bs' < rowsArea rows) := by
  have hne : points ≠ [] := by
    rintro rfl
    exact absurd h.pos (Nat.lt_irrefl 0)
  obtain ⟨bytes', hflush⟩ := h.encoded.flush h.fits
  rw [if_neg hne] at hflush
  have harea := h.area
  have hle := bandArea_toBand_le h.fits
  have hpos : 0 < r.ctxt.currentHeight * spansArea points := Nat.mul_pos h.fits.height h.pos
  have hy1 := prevY1_flush r points
  obtain ⟨k, hk, hlow, hhigh⟩ := toInt16_spec (r.ctxt.prevY1 + r.ctxt.currentHeight)
  have hlast : toInt16 (r.flush points).ctxt.prevY1 = (r.flush points).ctxt.prevY1 := by
    rw [hy1]
    exact toInt16_of_mem hlow hhigh
  have hconcat := bandsArea_concat (r.ctxt.toBand points) bs
  refine ⟨bytes', _, hflush, by omega, ?_, hlast, fun hgt => ?_⟩
  · rcases h.lost with hnext | hless
    · by_cases hfit : r.ctxt.prevY1 + r.ctxt.currentHeight ≤ 32767
      · obtain ⟨k', hk', hlow', -⟩ := toInt16_spec r.ctxt.prevY1
        have hstart := h.fits.start
        left
        rw [hy1, toInt16_of_mem (by omega) hfit, hnext]
      · right
        have := bandArea_toBand_of_gt h.fits h.height (by omega)
        omega
    · exact Or.inr (by omega)
  · rcases h.lost with hnext | hless
    · have := bandArea_toBand_of_gt h.fits h.height (by omega)
      omega
    · omega

theorem Weighed.step (h : Weighed y0 rows r points bytes bs) (hrow : Solid row) :
    ∃ points' bytes' bs', Weighed y0 (rows ++ [row]) (r.addScanline (some row) false) points' bytes'
      bs' := by
  have hadd : r.addScanline (some row) false =
      if points.length = row.length ∧ (points.length = 0 ∨ false = true ∨ points = row) ∧
          r.ctxt.currentHeight < 32000 then
        { r with ctxt.currentHeight := r.ctxt.currentHeight + 1 }
      else (r.flush points).keep row := by
    unfold Building.addScanline
    rw [h.current]
  have hrows : ((rows ++ [row]).length : Int) = rows.length + 1 := by
    rw [List.length_append, List.length_singleton]
    rfl
  have htotal := rowsArea_concat rows row
  rw [hadd]
  by_cases hcond : points.length = row.length ∧
      (points.length = 0 ∨ false = true ∨ points = row) ∧ r.ctxt.currentHeight < 32000
  · rw [if_pos hcond]
    have hsame : points = row := by
      rcases hcond.2.1 with h0 | h0 | h0
      · exact absurd (List.length_eq_zero_iff.mp (hcond.1 ▸ h0)) hrow.ne_nil
      · cases h0
      · exact h0
    subst hsame
    have hmul : (r.ctxt.currentHeight + 1) * spansArea points =
        r.ctxt.currentHeight * spansArea points + spansArea points := Nat.succ_mul _ _
    have harea := h.area
    refine ⟨points, bytes, bs, h.current, h.encoded.keep _ _,
      ⟨h.fits.narrow, h.fits.length, Nat.succ_pos _, h.fits.start⟩, h.pos, hcond.2.2, ?_, ?_⟩
    · show bandsArea bs + (r.ctxt.currentHeight + 1) * spansArea points ≤ _
      omega
    · show r.ctxt.prevY1 + ((r.ctxt.currentHeight + 1 : Nat) : Int) = _ ∨
        bandsArea bs + (r.ctxt.currentHeight + 1) * spansArea points < _
      rcases h.lost with hnext | hless
      · left
        omega
      · right
        omega
  · rw [if_neg hcond]
    obtain ⟨bytes', bs', hflush, harea, hlost, hy1, -⟩ := h.flush
    refine ⟨row, bytes', bs', rfl, hflush.keep _ _, ⟨hrow.narrow, hrow.length, Nat.one_pos, hy1⟩,
      hrow.pos, show 1 ≤ 32000 by decide, ?_, ?_⟩
    · show bandsArea bs' + 1 * spansArea row ≤ _
      omega
    · show (r.flush points).ctxt.prevY1 + 1 = _ ∨ bandsArea bs' + 1 * spansArea row < _
      rcases hlost with hnext | hless
      · left
        omega
      · right
        omega

end Step

/-- The state after all of the rows. -/
theorem weighed_foldl (stale : Nat → Nat) {y0 : Int} {rows : List (List (Int × Int))}
    (hy : toInt16 y0 = y0) (hne : rows ≠ []) (hrows : ∀ row ∈ rows, Solid row) :
    ∃ points bytes bs, Weighed y0 rows
      (rows.foldl (fun r row => r.addScanline (some row) false) (buildNewRegion stale y0)) points
      bytes bs := by
  induction rows using List.reverseRecOn with
  | nil => exact absurd rfl hne
  | append_singleton rows row ih =>
    have hrow := hrows row (List.mem_append_right _ (List.mem_singleton_self row))
    rw [List.foldl_append]
    by_cases h0 : rows = []
    · subst h0
      have hlength : row.length ≠ 0 := fun h => hrow.ne_nil (List.length_eq_zero_iff.mp h)
      have hadd : (buildNewRegion stale y0).addScanline (some row) false =
          (buildNewRegion stale y0).keep row := by
        show (if row.length = 0 then _ else _) = _
        rw [if_neg hlength]
        rfl
      show ∃ points bytes bs, Weighed y0 [row] ((buildNewRegion stale y0).addScanline (some row)
        false) points bytes bs
      rw [hadd]
      refine ⟨row, [], [], rfl, (encoded_buildNewRegion _ _).keep _ _,
        ⟨hrow.narrow, hrow.length, Nat.one_pos, hy⟩, hrow.pos, show 1 ≤ 32000 by decide, ?_,
        Or.inl rfl⟩
      show 0 + 1 * spansArea row ≤ spansArea row + 0
      omega
    · obtain ⟨points, bytes, bs, h⟩ := ih h0 fun q hq => hrows q (List.mem_append_left _ hq)
      exact h.step hrow

/--
Rows that do not fit below `y0` make a region of fewer pixels than they have.
-/
theorem card_pixels_lt (h : RegionHeap) {y0 : Int} {rows : List (List (Int × Int))}
    (hy : toInt16 y0 = y0) (hne : rows ≠ []) (hrows : ∀ row ∈ rows, Solid row)
    (hgt : 32767 < y0 + rows.length) {s : Finset (Int × Int)}
    (hs : ∀ p ∈ s, p ∈ pixels (buildRegion h y0 (rows.map fun row => (row, false))).1
      (buildRegion h y0 (rows.map fun row => (row, false))).2) : s.card < rowsArea rows := by
  obtain ⟨points, bytes, bs, hw⟩ := weighed_foldl h.behind hy hne hrows
  obtain ⟨bytes', bs', hflush, -, -, -, hless⟩ := hw.flush
  have hcurrent := hw.current
  unfold buildRegion at hs
  rw [List.foldl_map] at hs
  dsimp only at hs
  generalize rows.foldl (fun r row => r.addScanline (some row) false) (buildNewRegion h.behind y0) =
    r at hs hflush hcurrent
  have hadd : r.addScanline none false = r.flush points := by
    unfold Building.addScanline
    rw [hcurrent]
  unfold finishRegion at hs
  rw [hadd] at hs
  dsimp only at hs
  have hzero : (0 : BitVec 16).toInt = 0 := by decide
  have hsub : s ⊆ bandsPoints (bs'.take (bs'.length % 65536)) := by
    intro p hp
    have hmem := hs p hp
    split_ifs at hmem with h0
    · obtain ⟨d, hd, -⟩ := hmem
      cases hd
    · obtain ⟨d, hd, hin⟩ := hmem
      obtain rfl : (r.flush points).data = d := by
        have hself : RegionHeap.data
            { h with block := Function.update h.block h.next (some (r.flush points).data)
                     next := h.next + 1 }
            { data := some h.next, usedLength := (r.flush points).usedLength
              allocatedLength := (r.flush points).allocatedLength } =
            some (r.flush points).data := Function.update_self ..
        rw [hself] at hd
        exact Option.some.inj hd
      rw [hflush.bands, hflush.trans.1, hflush.trans.2, hzero, Int.sub_zero, Int.sub_zero] at hin
      exact mem_bandsPoints.mpr hin
  calc s.card ≤ (bandsPoints (bs'.take (bs'.length % 65536))).card := Finset.card_le_card hsub
    _ ≤ bandsArea (bs'.take (bs'.length % 65536)) := card_bandsPoints_le _
    _ ≤ bandsArea bs' := bandsArea_take_le _ _
    _ < rowsArea rows := hless hgt

end Nolrem.Cd
