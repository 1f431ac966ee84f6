import Mathlib.Data.List.Chain
import Mathlib.Data.List.GetD
import Mathlib.Data.List.Range
import Nolrem.Cd.RegionEncode

/-!
# Decoding undoes encoding

A region that is built row by row is read back as these rows.
-/

namespace Nolrem.Cd

open Nolrem.Lib

/-! ## Rows -/

/-- The spans of row `y`, in the order in which the bands have them. -/
def rowSpans (bs : List Band) (y : Int) : List (Int × Int) :=
  (bs.filter fun b => b.y0 ≤ y ∧ y < b.y1).flatMap Band.spans

/-- Row `k` of the rows that are given, counted from 0. -/
def rowAt (rows : List Row) (k : Int) : List (Int × Int) :=
  if k < 0 then [] else (rows.getD k.toNat ([], false)).1

theorem rowSpans_append (bs bs' : List Band) (y : Int) :
    rowSpans (bs ++ bs') y = rowSpans bs y ++ rowSpans bs' y := by
  unfold rowSpans
  rw [List.filter_append, List.flatMap_append]

theorem rowSpans_toBand {c : BuildContext} (points : List (Int × Int)) (y : Int)
    (hy1 : toInt16 (c.prevY1 + c.currentHeight) = c.prevY1 + c.currentHeight) :
    rowSpans (if points = [] then [] else [c.toBand points]) y =
      if c.prevY1 ≤ y ∧ y < c.prevY1 + c.currentHeight then points else [] := by
  unfold rowSpans
  by_cases h0 : points = []
  · rw [if_pos h0, h0, ite_self]
    rfl
  rw [if_neg h0]
  simp only [List.filter_cons, List.filter_nil, BuildContext.toBand, hy1,
    decide_eq_true_eq]
  split_ifs
  · exact List.append_nil _
  · rfl

theorem rowAt_append (rows : List Row) (row : Row) (k : Int) :
    rowAt (rows ++ [row]) k = rowAt rows k ++ if k = rows.length then row.1 else [] := by
  unfold rowAt
  by_cases hneg : k < 0
  · rw [if_pos hneg, if_pos hneg, if_neg (by omega)]
    rfl
  rw [if_neg hneg, if_neg hneg]
  rcases Nat.lt_trichotomy k.toNat rows.length with hlt | heq | hgt
  · rw [List.getD_append _ _ _ _ hlt, if_neg (by omega), List.append_nil]
  · rw [if_pos (by omega), List.getD_append_right _ _ _ _ (Nat.le_of_eq heq.symm), heq,
      Nat.sub_self, List.getD_eq_default _ _ (Nat.le_refl _)]
    rfl
  · rw [if_neg (by omega), List.getD_eq_default _ _ (Nat.le_of_lt hgt), List.getD_eq_default]
    · rfl
    · rw [List.length_append, List.length_singleton]
      exact hgt

theorem rowAt_of_empty {rows : List Row} (h : ∀ row ∈ rows, row.1 = []) (k : Int) :
    rowAt rows k = [] := by
  unfold rowAt
  split_ifs
  · rfl
  · rw [List.getD_eq_getElem?_getD]
    cases hk : rows[k.toNat]? with
    | none => rfl
    | some row => exact h row (List.mem_of_getElem? hk)

theorem rowAt_map_range (f : Nat → Row) (n : Nat) (k : Int) :
    rowAt ((List.range n).map f) k = if 0 ≤ k ∧ k < n then (f k.toNat).1 else [] := by
  unfold rowAt
  by_cases hneg : k < 0
  · rw [if_pos hneg, if_neg (by omega)]
  · rw [if_neg hneg, List.getD_eq_getElem?_getD, List.getElem?_map]
    by_cases hlt : k < n
    · rw [if_pos (by omega), List.getElem?_range (by omega)]
      rfl
    · rw [if_neg (by omega), List.getElem?_eq_none (by rw [List.length_range]; omega)]
      rfl

/-! ## The rows that have been added -/

/-- Nothing of an encoding depends on the rows that are kept. -/
theorem Encoded.keep {r : Building} {bytes : List Nat} {bs : List Band} (h : Encoded r bytes bs)
    (current : Option (List (Int × Int))) (height : Nat) :
    Encoded { r with ctxt.currentPoints := current, ctxt.currentHeight := height } bytes bs := by
  obtain ⟨⟨h1, h2, h3, h4, h5⟩, hcount, hdecodes, hnum, htrans⟩ := h
  refine ⟨⟨h1, h2, h3, h4, h5⟩, hcount, ?_, hnum, htrans⟩
  rintro m band hm h0 hle hst
  obtain ⟨hvalue, hs, hrep, hused, hptr, hreads⟩ := hdecodes m band hm h0 hle hst
  exact ⟨hvalue, ⟨hs.prevX0, hs.prevX1, hs.prevY1, hs.small⟩, hrep, hused, hptr, hreads⟩

/-- The last of the rows are kept as `points`, the rows before are encoded as the bands `bs`. -/
structure Kept (y0 : Int) (rows : List Row) (r : Building) (points : List (Int × Int))
    (bytes : List Nat) (bs : List Band) : Prop where
  current : r.ctxt.currentPoints = some points
  encoded : Encoded r bytes bs
  fits : Fits r.ctxt points
  start : -32768 ≤ r.ctxt.prevY1
  finish : r.ctxt.prevY1 + r.ctxt.currentHeight = y0 + rows.length
  few : (bs.length : Int) ≤ r.ctxt.prevY1 - y0
  last : ∃ row ∈ rows.getLast?, row.1 = points
  rows : ∀ y, rowSpans (bs ++ if points = [] then [] else [r.ctxt.toBand points]) y =
    rowAt rows (y - y0)

/-- The rows that are kept end within 16 bits. -/
theorem Kept.y1 {y0 : Int} {rows : List Row} {r : Building} {points : List (Int × Int)}
    {bytes : List Nat} {bs : List Band} (h : Kept y0 rows r points bytes bs)
    (hend : y0 + rows.length ≤ 32767) :
    toInt16 (r.ctxt.prevY1 + r.ctxt.currentHeight) = r.ctxt.prevY1 + r.ctxt.currentHeight := by
  have hfinish := h.finish
  have hstart := h.start
  exact toInt16_of_mem (by omega) (by omega)

/-- The state of the builder after `rows`: nothing is kept as long as all of them are empty. -/
inductive Built (stale : Nat → Nat) (y0 : Int) (rows : List Row) : Building → Prop where
  | empty (hempty : ∀ row ∈ rows, row.1 = []) :
    Built stale y0 rows (buildNewRegion stale (y0 + rows.length))
  | kept {r : Building} {points : List (Int × Int)} (bytes : List Nat) (bs : List Band)
    (h : Kept y0 rows r points bytes bs) : Built stale y0 rows r

section Step

variable {stale : Nat → Nat} {y0 : Int} {rows : List Row} {row : Row} {r : Building}

theorem encoded_buildNewRegion (stale : Nat → Nat) (y0 : Int) :
    Encoded (buildNewRegion stale y0) [] [] :=
  ⟨⟨trivial, rfl, rfl, by show 6 < 32; decide, by show 32 ≤ 32; decide⟩, show 0 < 257 by decide,
    decodes_nil rfl rfl rfl rfl rfl, rfl, rfl, rfl⟩

/-- The first row that is not empty. -/
theorem Built.first (hy : -32768 ≤ y0) (hend : y0 + rows.length + 1 ≤ 32767)
    (hempty : ∀ row ∈ rows, row.1 = []) (hn : Narrow row.1) (hlen : row.1.length ≤ 16383)
    (h0 : row.1 ≠ []) :
    Built stale y0 (rows ++ [row])
      ((buildNewRegion stale (y0 + rows.length)).addScanline (some row.1) row.2) := by
  have hlength : row.1.length ≠ 0 := fun h => h0 (List.length_eq_zero_iff.mp h)
  have hadd : (buildNewRegion stale (y0 + rows.length)).addScanline (some row.1) row.2 =
      (buildNewRegion stale (y0 + rows.length)).keep row.1 := by
    show (if row.1.length = 0 then _ else _) = _
    rw [if_neg hlength]
    rfl
  have hrows : ((rows ++ [row]).length : Int) = rows.length + 1 := by
    rw [List.length_append, List.length_singleton]
    rfl
  rw [hadd]
  refine Built.kept [] [] ⟨rfl, (encoded_buildNewRegion _ _).keep _ _,
    ⟨hn, hlen, show 0 < 1 by decide, toInt16_of_mem ?_ ?_⟩, ?_, ?_, ?_, ⟨row, ?_, rfl⟩, fun y => ?_⟩
  · show -32768 ≤ y0 + rows.length
    omega
  · show y0 + rows.length ≤ 32767
    omega
  · show -32768 ≤ y0 + rows.length
    omega
  · rw [hrows, ← Int.add_assoc]
    rfl
  · show (0 : Int) ≤ y0 + rows.length - y0
    omega
  · rw [List.getLast?_append, List.getLast?_singleton]
    rfl
  · rw [List.nil_append, rowSpans_toBand, rowAt_append, rowAt_of_empty hempty, List.nil_append]
    · refine if_congr ?_ rfl rfl
      show y0 + rows.length ≤ y ∧ y < y0 + rows.length + 1 ↔ y - y0 = rows.length
      omega
    · show toInt16 (y0 + rows.length + 1) = y0 + rows.length + 1
      exact toInt16_of_mem (by omega) hend

theorem prevY1_flush (r : Building) (points : List (Int × Int)) :
    (r.flush points).ctxt.prevY1 = toInt16 (r.ctxt.prevY1 + r.ctxt.currentHeight) := by
  have hdone (r : Building) : (r.doneEncoding points).ctxt.prevY1 =
      toInt16 (r.ctxt.prevY1 + r.ctxt.currentHeight) := by
    unfold Building.doneEncoding
    split_ifs <;> rfl
  have hsmall (output : List Nat) : (r.encodeSmall output).ctxt.prevY1 = r.ctxt.prevY1 ∧
      (r.encodeSmall output).ctxt.currentHeight = r.ctxt.currentHeight := by
    unfold Building.encodeSmall
    split_ifs <;> exact ⟨rfl, rfl⟩
  have hregular : (r.encodeRegular points).ctxt.prevY1 = r.ctxt.prevY1 ∧
      (r.encodeRegular points).ctxt.currentHeight = r.ctxt.currentHeight := by
    unfold Building.encodeRegular
    dsimp only
    split_ifs <;> exact ⟨rfl, rfl⟩
  unfold Building.flush
  rw [hdone]
  split_ifs
  · rw [(hsmall _).1, (hsmall _).2]
  · rw [hregular.1, hregular.2]

theorem length_rows (rows : List Row) (row : Row) :
    ((rows ++ [row]).length : Int) = rows.length + 1 := by
  rw [List.length_append, List.length_singleton]
  rfl

/-- The row is the same as the one before. -/
theorem Kept.same {points : List (Int × Int)} {bytes : List Nat} {bs : List Band}
    (h : Kept y0 rows r points bytes bs) (hend : y0 + rows.length + 1 ≤ 32767)
    (hsame : row.1 = points) :
    Kept y0 (rows ++ [row]) { r with ctxt.currentHeight := r.ctxt.currentHeight + 1 } points
      bytes bs := by
  have hfinish := h.finish
  refine ⟨h.current, h.encoded.keep r.ctxt.currentPoints (r.ctxt.currentHeight + 1),
    ⟨h.fits.narrow, h.fits.length, Nat.succ_pos _, h.fits.start⟩, h.start, ?_, h.few,
    ⟨row, by rw [List.getLast?_concat]; rfl, hsame⟩, fun y => ?_⟩
  · show r.ctxt.prevY1 + ((r.ctxt.currentHeight + 1 : Nat) : Int) = _
    rw [length_rows]
    omega
  · have hrow := h.rows y
    have hy1 : toInt16 (r.ctxt.prevY1 + ((r.ctxt.currentHeight + 1 : Nat) : Int)) =
        r.ctxt.prevY1 + ((r.ctxt.currentHeight + 1 : Nat) : Int) := by
      have hstart := h.start
      exact toInt16_of_mem (by omega) (by omega)
    rw [rowSpans_append, rowSpans_toBand _ _ (h.y1 (by omega))] at hrow
    rw [rowSpans_append,
      rowSpans_toBand (c := { r.ctxt with currentHeight := r.ctxt.currentHeight + 1 }) _ _ hy1,
      rowAt_append, ← hrow, hsame, List.append_assoc]
    congr 1
    show (if r.ctxt.prevY1 ≤ y ∧ y < r.ctxt.prevY1 + ((r.ctxt.currentHeight + 1 : Nat) : Int) then
      points else []) = _
    by_cases hold : r.ctxt.prevY1 ≤ y ∧ y < r.ctxt.prevY1 + r.ctxt.currentHeight
    · rw [if_pos (by omega), if_pos hold, if_neg (by omega), List.append_nil]
    · rw [if_neg hold, List.nil_append]
      have hheight := h.fits.height
      exact if_congr (by omega) rfl rfl

/-- The row is different, or there are too many that are the same. -/
theorem Kept.next {points : List (Int × Int)} {bytes : List Nat} {bs : List Band}
    (h : Kept y0 rows r points bytes bs) (hy : -32768 ≤ y0) (hend : y0 + rows.length + 1 ≤ 32767)
    (hn : Narrow row.1) (hlen : row.1.length ≤ 16383) :
    ∃ bytes' bs', Kept y0 (rows ++ [row]) ((r.flush points).keep row.1) row.1 bytes' bs' := by
  have hfinish := h.finish
  have hfew := h.few
  have hheight := h.fits.height
  have hstart := h.start
  obtain ⟨bytes', hflush⟩ := h.encoded.flush h.fits
  have hy1 : (r.flush points).ctxt.prevY1 = y0 + rows.length := by
    rw [prevY1_flush, h.y1 (by omega), hfinish]
  refine ⟨bytes', _, rfl, hflush.keep (some row.1) 1,
    ⟨hn, hlen, Nat.one_pos, toInt16_of_mem ?_ ?_⟩, ?_, ?_, ?_,
    ⟨row, by rw [List.getLast?_concat]; rfl, rfl⟩, fun y => ?_⟩
  · show -32768 ≤ (r.flush points).ctxt.prevY1
    omega
  · show (r.flush points).ctxt.prevY1 ≤ 32767
    omega
  · show -32768 ≤ (r.flush points).ctxt.prevY1
    omega
  · show (r.flush points).ctxt.prevY1 + 1 = _
    rw [length_rows, hy1, Int.add_assoc]
  · show _ ≤ (r.flush points).ctxt.prevY1 - y0
    rw [hy1, List.length_append]
    split_ifs
    · rw [List.length_nil]
      omega
    · rw [List.length_singleton]
      omega
  · rw [rowSpans_append, h.rows y, rowAt_append, rowSpans_toBand]
    · congr 1
      show (if (r.flush points).ctxt.prevY1 ≤ y ∧ y < (r.flush points).ctxt.prevY1 + 1 then
        row.1 else []) = _
      exact if_congr (by omega) rfl rfl
    · show toInt16 ((r.flush points).ctxt.prevY1 + 1) = (r.flush points).ctxt.prevY1 + 1
      exact toInt16_of_mem (by omega) (by omega)

theorem Built.step (hy : -32768 ≤ y0) (hend : y0 + rows.length + 1 ≤ 32767)
    (h : Built stale y0 rows r) (hn : Narrow row.1) (hlen : row.1.length ≤ 16383)
    (hknown : row.2 = true → ∀ prev ∈ rows.getLast?, row.1 = prev.1) :
    Built stale y0 (rows ++ [row]) (r.addScanline (some row.1) row.2) := by
  cases h with
  | empty hempty =>
    by_cases h0 : row.1 = []
    · have hadd : (buildNewRegion stale (y0 + rows.length)).addScanline (some row.1) row.2 =
          buildNewRegion stale (toInt16 (y0 + rows.length + 1)) := by
        rw [h0]
        rfl
      rw [hadd, toInt16_of_mem (by omega) hend, Int.add_assoc, ← length_rows]
      refine Built.empty fun q hq => ?_
      rcases List.mem_append.mp hq with hq | hq
      · exact hempty q hq
      · rw [List.mem_singleton.mp hq, h0]
    · exact Built.first hy hend hempty hn hlen h0
  | @kept r points bytes bs h =>
    have hadd : r.addScanline (some row.1) row.2 =
        if points.length = row.1.length ∧ (points.length = 0 ∨ row.2 ∨ points = row.1) ∧
            r.ctxt.currentHeight < 32000 then
          { r with ctxt.currentHeight := r.ctxt.currentHeight + 1 }
        else (r.flush points).keep row.1 := by
      unfold Building.addScanline
      rw [h.current]
    rw [hadd]
    split_ifs with hcond
    · refine Built.kept bytes bs (h.same hend ?_)
      obtain ⟨prev, hprev, hlast⟩ := h.last
      rcases hcond.2.1 with hzero | hflag | heq
      · rw [List.length_eq_zero_iff.mp hzero]
        exact List.length_eq_zero_iff.mp (hcond.1.symm.trans hzero)
      · exact (hknown hflag prev hprev).trans hlast
      · exact heq.symm
    · obtain ⟨bytes', bs', hnext⟩ := h.next hy hend hn hlen
      exact Built.kept bytes' bs' hnext

end Step

/-- The state after all of the rows. -/
theorem built_foldl (stale : Nat → Nat) {y0 : Int} {rows : List Row} (hy : -32768 ≤ y0)
    (hend : y0 + rows.length ≤ 32767)
    (hrows : ∀ row ∈ rows, Narrow row.1 ∧ row.1.length ≤ 16383)
    (hknown : rows.IsChain fun prev row => row.2 = true → row.1 = prev.1) :
    Built stale y0 rows
      (rows.foldl (fun r row => r.addScanline (some row.1) row.2) (buildNewRegion stale y0)) := by
  induction rows using List.reverseRecOn with
  | nil =>
    have hempty : Built stale y0 [] (buildNewRegion stale (y0 + 0)) := Built.empty nofun
    rwa [Int.add_zero] at hempty
  | append_singleton rows row ih =>
    rw [length_rows] at hend
    rw [List.isChain_append] at hknown
    obtain ⟨hchain, -, hlast⟩ := hknown
    obtain ⟨hn, hlen⟩ := hrows row (List.mem_append_right _ (List.mem_singleton_self row))
    have hbuilt := ih (by omega) (fun q hq => hrows q (List.mem_append_left _ hq)) hchain
    rw [List.foldl_append]
    exact hbuilt.step hy (by omega) hn hlen fun hflag prev hprev => hlast prev hprev row rfl hflag

/-! ## The region -/

/-- The spans that `IterateRegionCoroutine` reports for row `y`, with the translation. -/
def regionRow (h : RegionHeap) (rgn : Region) (y : Int) : List (Int × Int) :=
  match h.data rgn with
  | none => []
  | some d => (rowSpans d.bands (y - d.transY.toInt)).map fun s =>
      (s.1 + d.transX.toInt, s.2 + d.transX.toInt)

/-- The bytes that are read are among those that have been written, which are in the block. -/
def ReadsWritten (h : RegionHeap) (rgn : Region) : Prop :=
  ∀ d, h.data rgn = some d → rgn.usedLength < rgn.allocatedLength ∧
    ∀ i ∈ readsOfBands d.band d.numBands createIterationContext,
      sizeofRegionData + i < rgn.usedLength

/-- The pixels are those of the rows. -/
theorem mem_pixels {h : RegionHeap} {rgn : Region} {x y : Int} :
    (x, y) ∈ pixels h rgn ↔ ∃ s ∈ regionRow h rgn y, s.1 ≤ x ∧ x < s.2 := by
  unfold pixels regionRow
  cases h.data rgn with
  | none => simp
  | some d =>
    simp only [Set.mem_ofPred_eq, Option.some.injEq, exists_eq_left', inBands, List.mem_map,
      exists_exists_and_eq_and, rowSpans, List.mem_flatMap, List.mem_filter, decide_eq_true_eq]
    constructor
    · rintro ⟨b, hb, hy0, hy1, s, hs, h0, h1⟩
      exact ⟨s, ⟨b, ⟨hb, hy0, hy1⟩, hs⟩, by omega, by omega⟩
    · rintro ⟨s, ⟨b, ⟨hb, hy0, hy1⟩, hs⟩, h0, h1⟩
      exact ⟨b, hb, hy0, hy1, s, hs, by omega, by omega⟩

/-- A block whose bands are all encoded. There may be more of them than `num_bands` can count. -/
theorem Encoded.bands {r : Building} {bytes : List Nat} {bs : List Band}
    (h : Encoded r bytes bs) : r.data.bands = bs.take (bs.length % 65536) := by
  have hd := h.decodes r.ctxt.count0x7F r.data.band (Nat.le_refl _) (fun h0 => h0)
    (Nat.le_of_lt h.count) h.written.stored
  rw [RegionData.bands, h.numBands, ← take_bands (Nat.mod_le _ _), hd.value]

theorem Encoded.decoded {r : Building} {bytes : List Nat} {bs : List Band}
    (h : Encoded r bytes bs) (hfew : bs.length < 65536) :
    r.data.bands = bs ∧ ∀ i ∈ readsOfBands r.data.band r.data.numBands createIterationContext,
      sizeofRegionData + i < r.usedLength := by
  have hd := h.decodes r.ctxt.count0x7F r.data.band (Nat.le_refl _) (fun h0 => h0)
    (Nat.le_of_lt h.count) h.written.stored
  rw [h.bands, h.numBands, Nat.mod_eq_of_lt hfew, List.take_length, h.written.usedLength]
  exact ⟨rfl, fun i hi => Nat.add_lt_add_left (hd.reads i hi) _⟩

/-- The region that is read back, once all of the rows have been added. -/
theorem Built.finish {stale : Nat → Nat} {y0 : Int} {rows : List Row} {r : Building}
    (h : RegionHeap) (hy : -32768 ≤ y0) (hend : y0 + rows.length ≤ 32767)
    (hbuilt : Built stale y0 rows r) :
    (∀ y, regionRow (finishRegion h r).1 (finishRegion h r).2 y = rowAt rows (y - y0)) ∧
      ReadsWritten (finishRegion h r).1 (finishRegion h r).2 := by
  cases hbuilt with
  | empty hempty =>
    refine ⟨fun y => ?_, ?_⟩
    · rw [rowAt_of_empty hempty]
      rfl
    · rintro d ⟨⟩
  | @kept r points bytes bs hk =>
    have hfinish := hk.finish
    have hfew := hk.few
    have hheight := hk.fits.height
    obtain ⟨bytes', hflush⟩ := hk.encoded.flush hk.fits
    have hadd : r.addScanline none false = r.flush points := by
      unfold Building.addScanline
      rw [hk.current]
    have hlen : (bs ++ if points = [] then [] else [r.ctxt.toBand points]).length < 65536 := by
      rw [List.length_append]
      split_ifs
      · rw [List.length_nil]
        omega
      · rw [List.length_singleton]
        omega
    obtain ⟨hbands, hreads⟩ := hflush.decoded hlen
    have hzero : (0 : BitVec 16).toInt = 0 := by decide
    unfold finishRegion
    rw [hadd]
    dsimp only
    by_cases h0 : (r.flush points).data.numBands = 0
    · rw [if_pos h0]
      refine ⟨fun y => ?_, by rintro d ⟨⟩⟩
      rw [hflush.numBands, Nat.mod_eq_of_lt hlen, List.length_eq_zero_iff] at h0
      rw [← hk.rows, h0]
      rfl
    · rw [if_neg h0]
      have hdata : RegionHeap.data
          { h with block := Function.update h.block h.next (some (r.flush points).data)
                   next := h.next + 1 }
          { data := some h.next, usedLength := (r.flush points).usedLength
            allocatedLength := (r.flush points).allocatedLength } =
          some (r.flush points).data := Function.update_self ..
      refine ⟨fun y => ?_, fun d hd => ?_⟩
      · unfold regionRow
        rw [hdata]
        dsimp only
        rw [hbands, hflush.trans.1, hflush.trans.2, hzero, Int.sub_zero, hk.rows]
        simp only [Int.add_zero, Prod.mk.eta, List.map_id']
      · rw [hdata] at hd
        obtain rfl := Option.some.inj hd
        exact ⟨hflush.written.room, hreads⟩

section Rows

variable (h : RegionHeap) {y0 : Int} {rows : List Row} (hy : -32768 ≤ y0)
  (hend : y0 + rows.length ≤ 32767) (hrows : ∀ row ∈ rows, Narrow row.1 ∧ row.1.length ≤ 16383)
  (hknown : rows.IsChain fun prev row => row.2 = true → row.1 = prev.1)

include hy hend hrows hknown

theorem regionRow_buildRegion (y : Int) :
    regionRow (buildRegion h y0 rows).1 (buildRegion h y0 rows).2 y = rowAt rows (y - y0) :=
  ((built_foldl h.behind hy hend hrows hknown).finish h hy hend).1 y

theorem readsWritten_buildRegion :
    ReadsWritten (buildRegion h y0 rows).1 (buildRegion h y0 rows).2 :=
  ((built_foldl h.behind hy hend hrows hknown).finish h hy hend).2

end Rows

/-- The rows are numbered. -/
theorem regionRow_range (h : RegionHeap) {y0 : Int} {n : Nat} {f : Nat → Row} (hy : -32768 ≤ y0)
    (hend : y0 + n ≤ 32767) (hrows : ∀ i < n, Narrow (f i).1 ∧ (f i).1.length ≤ 16383)
    (hknown : ∀ i, i + 1 < n → (f (i + 1)).2 = true → (f (i + 1)).1 = (f i).1) (k : Int) :
    regionRow (buildRegion h y0 ((List.range n).map f)).1
        (buildRegion h y0 ((List.range n).map f)).2 (y0 + k) =
      if 0 ≤ k ∧ k < n then (f k.toNat).1 else [] := by
  have hlen : ((List.range n).map f).length = n := by rw [List.length_map, List.length_range]
  rw [regionRow_buildRegion h hy (by rw [hlen]; exact hend), show y0 + k - y0 = k by omega,
    rowAt_map_range]
  · rintro row hrow
    obtain ⟨i, hi, rfl⟩ := List.mem_map.mp hrow
    exact hrows i (List.mem_range.mp hi)
  · rw [List.isChain_map, List.isChain_range]
    exact fun i hi => hknown i (by omega)

/--
**Decoding undoes encoding.** Whatever the block has in it at first, the region that is built from
`rows` is read back as these rows, and no byte is read that was not written.
-/
theorem region_rows_read_back (h : RegionHeap) {y0 : Int} {rows : List Row} (hy : -32768 ≤ y0)
    (hend : y0 + rows.length ≤ 32767)
    (hrows : ∀ row ∈ rows, Narrow row.1 ∧ row.1.length ≤ 16383)
    (hknown : rows.IsChain fun prev row => row.2 = true → row.1 = prev.1) :
    (∀ y, regionRow (buildRegion h y0 rows).1 (buildRegion h y0 rows).2 y = rowAt rows (y - y0)) ∧
      ReadsWritten (buildRegion h y0 rows).1 (buildRegion h y0 rows).2 :=
  ⟨regionRow_buildRegion h hy hend hrows hknown, readsWritten_buildRegion h hy hend hrows hknown⟩

/-- Rows with a gap, and two that continue the step from the first to the second. -/
def stepRows : List Row :=
  [([], false), ([(-4, 9)], false), ([(-4, 9)], true), ([(-2, 8)], false), ([(0, 7)], false),
    ([(2, 6)], false), ([], false), ([(300, 32767)], false)]

theorem region_rows_read_back_step :
    (∀ y, regionRow (buildRegion ⟨fun _ => none, 0, fun i => i⟩ (-3) stepRows).1
        (buildRegion ⟨fun _ => none, 0, fun i => i⟩ (-3) stepRows).2 y =
          rowAt stepRows (y - (-3))) ∧
      ReadsWritten (buildRegion ⟨fun _ => none, 0, fun i => i⟩ (-3) stepRows).1
        (buildRegion ⟨fun _ => none, 0, fun i => i⟩ (-3) stepRows).2 :=
  region_rows_read_back _ (by decide) (by decide)
    (by simp [stepRows, Narrow, int16s]) (by simp [stepRows])

end Nolrem.Cd
