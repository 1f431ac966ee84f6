import Nolrem.Cd.PolygonRegion

/-!
# Filling polygons

The region of `CdCreatePolyPolygonRegion` has the pixels of the fill rule.
-/

namespace Nolrem.Cd

open Nolrem.Lib

/-! ## The rows -/

/-- What the numbers of the code have to hold: all points, the products, the crossings of a row. -/
structure Drawable (polygons : List (List (Int × Int))) : Prop where
  total : FitsInt polygons.flatten.length
  products : ∀ y, ∀ edge ∈ crossings polygons y, FitsInt (edge.product y)
  few : ∀ y, (crossings polygons y).length ≤ 32768

section Rows

variable {e : Allocator} {fuel : Nat} {polygons : List (List (Int × Int))} {mode y : Int}

theorem length_rowData (edges : List Edge) (y : Int) : ∀ d ∈ rowData edges y, d.length = 8 := by
  intro d hd
  obtain ⟨edge, -, rfl⟩ := List.mem_map.mp hd
  rfl

theorem fillSpans_nil (mode : Int) : fillSpans mode [] = [] := ite_self _

theorem InInt16.allEdges (hint : InInt16 polygons) : ∀ edge ∈ polygons.flatMap edgesOf,
    (edge.1.1 ∈ int16s ∧ edge.1.2 ∈ int16s) ∧ edge.2.1 ∈ int16s ∧ edge.2.2 ∈ int16s := by
  intro edge hedge
  obtain ⟨points, hp, he⟩ := List.mem_flatMap.mp hedge
  exact hint.ends hp he

/-- The edges that are inserted for a row. -/
theorem insertEdges_iff (hint : InInt16 polygons) (hfits : FitsInt polygons.flatten.length)
    {da da' : DynamicArray} :
    insertEdges e fuel (arrayX polygons) (arrayY polygons) y 0 (arrayCounts polygons) da =
        some da' ↔
      (∀ edge ∈ crossings polygons y, FitsInt (edge.product y)) ∧
        insertAll e fuel da (rowData (polygons.flatMap edgesOf) y) = some da' := by
  have heq : insertEdges e fuel (arrayX polygons) (arrayY polygons) y 0 (arrayCounts polygons) da =
      (polygons.flatMap edgesOf).foldlM (insertEdge e fuel y) da := insertEdges_eq [] hfits
  rw [heq, foldlM_insertEdge hint.allEdges]
  refine and_congr_left' ?_
  unfold crossings
  simp only [List.mem_filter, decide_eq_true_eq, and_imp]

theorem length_rowData_edges (polygons : List (List (Int × Int))) (y : Int) :
    (rowData (polygons.flatMap edgesOf) y).length = (crossings polygons y).length :=
  List.length_map _

/-- The row, once the edges are inserted. -/
theorem row_of_rep {da : DynamicArray} {b : HeapBlock}
    (h : Rep da (rowData (polygons.flatMap edgesOf) y) b) :
    (if da.used = 0 then some ([], false)
      else some (fillSpans mode
        ((sortDynamicArray intersectionComparator da).elems.map intersectionOf), false)) =
      some (fillSpans mode (sortedRow polygons y), false) := by
  split_ifs with hused
  · have hnil : rowData (polygons.flatMap edgesOf) y = [] :=
      List.length_eq_zero_iff.mp (h.used.symm.trans hused)
    have hsorted : sortedRow polygons y = [] := by
      unfold sortedRow
      rw [hnil]
      rfl
    rw [hsorted, fillSpans_nil]
  · obtain ⟨b', hb'⟩ := h.sort intersectionComparator
    rw [hb'.elems]
    rfl

/-- The array for the crossings of a row. -/
theorem createIntersections (e : Allocator) : ∃ da, createDynamicArray e 8 8 = some da ∧
    (∃ b, Rep da [] b) ∧ da.allocated = 8 ∧ da.dataSize = 8 :=
  createDynamicArray_spec (show 1 ≤ 8 by decide) (by decide)
    (show 8 * max 8 1 ≤ 2147483647 by decide)

theorem polygonRow_spec (hint : InInt16 polygons) (hfits : FitsInt polygons.flatten.length)
    {row : Row}
    (h : polygonRow e fuel (arrayX polygons) (arrayY polygons) (arrayCounts polygons) mode y =
      some row) :
    (∀ edge ∈ crossings polygons y, FitsInt (edge.product y)) ∧
      (crossings polygons y).length ≤ 32768 ∧
        row = (fillSpans mode (sortedRow polygons y), false) := by
  obtain ⟨da, hda, hrep, hal, hds⟩ := createIntersections e
  unfold polygonRow at h
  rw [hda, Option.bind_eq_bind, Option.bind_some] at h
  obtain ⟨da', hins, hrow⟩ := Option.bind_eq_some_iff.mp h
  obtain ⟨hproducts, hins⟩ := (insertEdges_iff hint hfits).mp hins
  obtain ⟨⟨b, hb⟩, hroom⟩ := insertAll_spec (by rw [hal]; decide) hrep
    (fun d hd => (length_rowData _ y d hd).trans hds.symm) hins
  refine ⟨hproducts, ?_, (Option.some.inj ((row_of_rep hb).symm.trans hrow)).symm⟩
  rw [← length_rowData_edges]
  by_cases h0 : rowData (polygons.flatMap edgesOf) y = []
  · rw [h0]
    exact Nat.zero_le _
  · obtain ⟨k, hk⟩ := hroom h0
    rw [hal, List.length_nil, Nat.zero_add] at hk
    exact hk.trans (capacity_of_eight k)

theorem polygonRow_ends (hint : InInt16 polygons) (hd : Drawable polygons) (hfuel : 12 < fuel) :
    polygonRow e fuel (arrayX polygons) (arrayY polygons) (arrayCounts polygons) mode y =
      some (fillSpans mode (sortedRow polygons y), false) := by
  obtain ⟨da, hda, hrep, hal, hds⟩ := createIntersections e
  have hlens := fun d hd => (length_rowData (polygons.flatMap edgesOf) y d hd).trans hds.symm
  have hroom : ([] : List (List Nat)).length + (rowData (polygons.flatMap edgesOf) y).length ≤
      8 * 2 ^ 12 % 65536 := by
    rw [List.length_nil, Nat.zero_add, length_rowData_edges]
    exact hd.few y
  obtain ⟨da', hins⟩ := insertAll_ends (e := e) hfuel (by rw [hal]; decide) hrep hlens
    ⟨0, Nat.zero_le 12, hal⟩ hroom
  obtain ⟨⟨b, hb⟩, -⟩ := insertAll_spec (by rw [hal]; decide) hrep hlens hins
  unfold polygonRow
  rw [hda, Option.bind_eq_bind, Option.bind_some,
    (insertEdges_iff hint hd.total).mpr ⟨hd.products y, hins⟩]
  exact row_of_rep hb

end Rows

/-! ## The range of the rows -/

/-- The points of the polygons that are drawn. -/
def drawnPoints (polygons : List (List (Int × Int))) : List (Int × Int) :=
  (polygons.filter fun points => 3 ≤ points.length).flatten

def yRangeOf (polygons : List (List (Int × Int))) : Int × Int :=
  ((drawnPoints polygons).map Prod.snd).foldl Polygon.widen (32767, -32768)

section Range

variable {polygons : List (List (Int × Int))} {y : Int}

theorem foldl_widen (ys : List Int) (r : Int × Int) :
    ((ys.foldl Polygon.widen r).1 ≤ r.1 ∧ r.2 ≤ (ys.foldl Polygon.widen r).2) ∧
      (∀ y ∈ ys, (ys.foldl Polygon.widen r).1 ≤ y ∧ y ≤ (ys.foldl Polygon.widen r).2) ∧
        ((ys.foldl Polygon.widen r).1 = r.1 ∨ (ys.foldl Polygon.widen r).1 ∈ ys) ∧
          ((ys.foldl Polygon.widen r).2 = r.2 ∨ (ys.foldl Polygon.widen r).2 ∈ ys) := by
  induction ys generalizing r with
  | nil => exact ⟨⟨le_rfl, le_rfl⟩, nofun, Or.inl rfl, Or.inl rfl⟩
  | cons y ys ih =>
    obtain ⟨⟨hlow, hhigh⟩, hall, hmin, hmax⟩ := ih (Polygon.widen r y)
    rw [List.foldl_cons]
    generalize ys.foldl Polygon.widen (Polygon.widen r y) = r' at *
    have h1 : (Polygon.widen r y).1 ≤ r.1 ∧ (Polygon.widen r y).1 ≤ y ∧
        ((Polygon.widen r y).1 = r.1 ∨ (Polygon.widen r y).1 = y) := by
      unfold Polygon.widen
      dsimp only
      omega
    have h2 : r.2 ≤ (Polygon.widen r y).2 ∧ y ≤ (Polygon.widen r y).2 ∧
        ((Polygon.widen r y).2 = r.2 ∨ (Polygon.widen r y).2 = y) := by
      unfold Polygon.widen
      dsimp only
      omega
    refine ⟨⟨hlow.trans h1.1, h2.1.trans hhigh⟩,
      List.forall_mem_cons.mpr ⟨⟨hlow.trans h1.2.1, h2.2.1.trans hhigh⟩, hall⟩, ?_, ?_⟩
    · rcases hmin with hmin | hmin
      · exact h1.2.2.imp hmin.trans fun h => List.mem_cons.mpr (Or.inl (hmin.trans h))
      · exact Or.inr (List.mem_cons_of_mem y hmin)
    · rcases hmax with hmax | hmax
      · exact h2.2.2.imp hmax.trans fun h => List.mem_cons.mpr (Or.inl (hmax.trans h))
      · exact Or.inr (List.mem_cons_of_mem y hmax)

theorem yRange_eq (pre : List (List (Int × Int))) (r : Int × Int) :
    Polygon.yRange (arrayY (pre ++ polygons)) r pre.flatten.length (arrayCounts polygons) =
      ((drawnPoints polygons).map Prod.snd).foldl Polygon.widen r := by
  induction polygons generalizing pre r with
  | nil => rfl
  | cons points polygons ih =>
    have hflat : (pre ++ points :: polygons).flatten =
        pre.flatten ++ (points ++ polygons.flatten) := by simp
    have hsplit : pre ++ points :: polygons = pre ++ [points] ++ polygons := by simp
    have hnext : ((pre.flatten.length : Int) + (points.length : Nat)) =
        ((pre ++ [points]).flatten.length : Nat) := by
      simp
    have hys : (List.range points.length).map (fun j : Nat =>
        arrayY (pre ++ points :: polygons) (pre.flatten.length + j)) = points.map Prod.snd := by
      refine List.ext_getElem (by simp) fun j h1 h2 => ?_
      have hj : j < points.length := by simpa using h2
      rw [List.getElem_map, List.getElem_range, List.getElem_map, arrayY, hflat, array_getD _ hj,
        List.getD_eq_getElem _ _ hj]
    unfold arrayCounts
    rw [List.map_cons, Polygon.yRange, hnext, Int.toNat_natCast,
      ← List.foldl_map (f := fun j : Nat =>
        arrayY (pre ++ points :: polygons) (pre.flatten.length + j)) (g := Polygon.widen),
      hys, hsplit]
    refine (ih (pre ++ [points]) _).trans ?_
    unfold drawnPoints
    rw [List.filter_cons]
    by_cases h3 : 3 ≤ points.length
    · rw [if_pos (by omega), if_pos (by simpa using h3), List.flatten_cons, List.map_append,
        List.foldl_append]
    · rw [if_neg (by omega), if_neg (by simpa using h3)]

theorem yRange_arrays (polygons : List (List (Int × Int))) :
    Polygon.yRange (arrayY polygons) (32767, -32768) 0 (arrayCounts polygons) =
      yRangeOf polygons :=
  yRange_eq [] (32767, -32768)

theorem mem_drawnPoints {edge : Edge} (h : edge ∈ crossings polygons y) :
    edge.1 ∈ drawnPoints polygons ∧ edge.2 ∈ drawnPoints polygons := by
  obtain ⟨⟨points, hp, he⟩, -⟩ := mem_crossings.mp h
  obtain ⟨h3, h1, h2⟩ := mem_edgesOf he
  have hmem : points ∈ polygons.filter fun points => 3 ≤ points.length :=
    List.mem_filter.mpr ⟨hp, decide_eq_true h3⟩
  exact ⟨List.mem_flatten_of_mem hmem h1, List.mem_flatten_of_mem hmem h2⟩

/-- The rows that are crossed are among those that are gone through. -/
theorem mem_range_of_crossings (h : crossings polygons y ≠ []) :
    (yRangeOf polygons).1 ≤ y ∧ y < (yRangeOf polygons).2 := by
  obtain ⟨edge, hedge⟩ := List.exists_mem_of_ne_nil _ h
  obtain ⟨h1, h2⟩ := mem_drawnPoints hedge
  obtain ⟨-, hall, -⟩ := foldl_widen ((drawnPoints polygons).map Prod.snd) (32767, -32768)
  have hy1 := hall _ (List.mem_map_of_mem h1)
  have hy2 := hall _ (List.mem_map_of_mem h2)
  unfold yRangeOf
  rcases (mem_crossings.mp hedge).2 with hc | hc <;> omega

theorem InInt16.yRangeOf (hint : InInt16 polygons) :
    -32768 ≤ (Cd.yRangeOf polygons).1 ∧ (Cd.yRangeOf polygons).2 ≤ 32767 := by
  have hpoint {n : Int} (h : n ∈ (drawnPoints polygons).map Prod.snd) : n ∈ int16s := by
    obtain ⟨p, hp, rfl⟩ := List.mem_map.mp h
    obtain ⟨points, hpoints, hp⟩ := List.mem_flatten.mp hp
    exact (hint points (List.mem_of_mem_filter hpoints) p hp).2
  obtain ⟨-, -, hmin, hmax⟩ := foldl_widen ((drawnPoints polygons).map Prod.snd) (32767, -32768)
  unfold Cd.yRangeOf
  constructor
  · rcases hmin with h | h
    · rw [h]
      decide
    · exact (hpoint h).1
  · rcases hmax with h | h
    · rw [h]
      decide
    · exact (hpoint h).2

end Range

/-! ## The region -/

section Region

variable {e : Allocator} {fuel : Nat} {h : RegionHeap} {polygons : List (List (Int × Int))}
  {mode : Int}

theorem foldlM_cInt (polygons : List (List (Int × Int))) {s : Nat} (hs : FitsInt s) :
    (arrayCounts polygons).foldlM (fun total c => cInt (total + c)) (s : Int) =
      cInt ((s + polygons.flatten.length : Nat) : Int) := by
  induction polygons generalizing s with
  | nil => exact (cInt_of_fits hs).symm
  | cons points polygons ih =>
    have hsum : s + (points :: polygons).flatten.length =
        s + points.length + polygons.flatten.length := by
      rw [List.flatten_cons, List.length_append, Nat.add_assoc]
    unfold arrayCounts
    rw [List.map_cons, List.foldlM_cons, ← Int.natCast_add, hsum]
    by_cases hfits : FitsInt ((s + points.length : Nat) : Int)
    · rw [cInt_of_fits hfits]
      exact ih hfits
    · -- the sums do not get smaller
      have hmore : ¬ FitsInt ((s + points.length + polygons.flatten.length : Nat) : Int) := by
        unfold FitsInt at hfits ⊢
        omega
      unfold cInt
      rw [if_neg hfits, if_neg hmore]
      rfl

theorem totalPoints_eq (polygons : List (List (Int × Int))) :
    totalPoints (arrayCounts polygons) = cInt polygons.flatten.length := by
  have h0 := foldlM_cInt polygons (s := 0) (by decide)
  rwa [Nat.zero_add] at h0

/-- The rows that are added. -/
def polygonRows (polygons : List (List (Int × Int))) (mode : Int) : List Row :=
  (List.range ((yRangeOf polygons).2 - (yRangeOf polygons).1).toNat).map fun k : Nat =>
    (fillSpans mode (sortedRow polygons ((yRangeOf polygons).1 + k)), false)

/-- The call, on a list of polygons. -/
def createRegion (e : Allocator) (fuel : Nat) (h : RegionHeap)
    (polygons : List (List (Int × Int))) (mode : Int) : Option (RegionHeap × Region) :=
  cdCreatePolyPolygonRegion e fuel h (some (arrayX polygons)) (some (arrayY polygons))
    (some (arrayCounts polygons)) mode

/-- The region, once there is one. -/
def regionOf (h : RegionHeap) (polygons : List (List (Int × Int))) (mode : Int) :
    RegionHeap × Region :=
  if (yRangeOf polygons).1 ≥ (yRangeOf polygons).2 then (h, cdEmptyRegion)
  else buildRegion h (toInt16 (yRangeOf polygons).1) (polygonRows polygons mode)

theorem createRegion_of_drawable (e : Allocator) (h : RegionHeap) (mode : Int)
    (hint : InInt16 polygons) (hd : Drawable polygons) (hfuel : 12 < fuel) :
    createRegion e fuel h polygons mode = some (regionOf h polygons mode) := by
  unfold createRegion cdCreatePolyPolygonRegion
  dsimp only
  by_cases hnil : arrayCounts polygons = []
  · obtain rfl := List.map_eq_nil_iff.mp hnil
    rfl
  have hrows : ((List.range ((yRangeOf polygons).2 - (yRangeOf polygons).1).toNat).mapM
      fun k : Nat => polygonRow e fuel (arrayX polygons) (arrayY polygons) (arrayCounts polygons)
        mode ((yRangeOf polygons).1 + k)) = some (polygonRows polygons mode) :=
    mapM_of_forall fun k _ => polygonRow_ends hint hd hfuel
  rw [if_neg hnil, totalPoints_eq, cInt_of_fits hd.total, yRange_arrays, hrows, Option.bind_eq_bind,
    Option.bind_some]
  unfold regionOf
  split_ifs <;> rfl

theorem drawable_of_no_crossings (hfits : FitsInt polygons.flatten.length)
    (hno : ∀ y, crossings polygons y = []) : Drawable polygons :=
  ⟨hfits, fun y => by rw [hno]; exact nofun, fun y => by rw [hno]; exact Nat.zero_le _⟩

theorem createRegion_spec (hint : InInt16 polygons) {r : RegionHeap × Region}
    (hr : createRegion e fuel h polygons mode = some r) :
    Drawable polygons ∧ r = regionOf h polygons mode := by
  unfold createRegion cdCreatePolyPolygonRegion at hr
  dsimp only at hr
  by_cases hnil : arrayCounts polygons = []
  · obtain rfl := List.map_eq_nil_iff.mp hnil
    exact ⟨drawable_of_no_crossings (by decide) fun _ => rfl, (Option.some.inj hr).symm⟩
  rw [if_neg hnil, totalPoints_eq, yRange_arrays] at hr
  obtain ⟨total, htotal, hr⟩ := Option.bind_eq_some_iff.mp hr
  have hfits := (cInt_eq_some.mp htotal).1
  unfold regionOf
  by_cases hempty : (yRangeOf polygons).1 ≥ (yRangeOf polygons).2
  · rw [if_pos hempty] at hr ⊢
    refine ⟨drawable_of_no_crossings hfits fun y => ?_, (Option.some.inj hr).symm⟩
    by_contra hne
    have hy := mem_range_of_crossings hne
    omega
  rw [if_neg hempty] at hr ⊢
  obtain ⟨rows, hrows, hr⟩ := Option.bind_eq_some_iff.mp hr
  have hrow (y : Int) (hy : (yRangeOf polygons).1 ≤ y ∧ y < (yRangeOf polygons).2) :
      ∃ row, polygonRow e fuel (arrayX polygons) (arrayY polygons) (arrayCounts polygons) mode y =
        some row := by
    have hk := forall_of_mapM hrows (y - (yRangeOf polygons).1).toNat
      (List.mem_range.mpr (by omega))
    rwa [show (yRangeOf polygons).1 + ((y - (yRangeOf polygons).1).toNat : Nat) = y by omega] at hk
  have hcrossed (y : Int) (hne : crossings polygons y ≠ []) :
      (∀ edge ∈ crossings polygons y, FitsInt (edge.product y)) ∧
        (crossings polygons y).length ≤ 32768 := by
    obtain ⟨row, hrow⟩ := hrow y (mem_range_of_crossings hne)
    obtain ⟨h1, h2, -⟩ := polygonRow_spec hint hfits hrow
    exact ⟨h1, h2⟩
  refine ⟨⟨hfits, fun y edge he => (hcrossed y (List.ne_nil_of_mem he)).1 edge he, fun y => ?_⟩, ?_⟩
  · by_cases hne : crossings polygons y = []
    · rw [hne]
      exact Nat.zero_le _
    · exact (hcrossed y hne).2
  · obtain rfl := Option.some.inj hr
    have hall : ((List.range ((yRangeOf polygons).2 - (yRangeOf polygons).1).toNat).mapM
        fun k : Nat => polygonRow e fuel (arrayX polygons) (arrayY polygons) (arrayCounts polygons)
          mode ((yRangeOf polygons).1 + k)) = some (polygonRows polygons mode) :=
      mapM_of_forall fun k hk => by
        obtain ⟨row, hrow⟩ := forall_of_mapM hrows k hk
        obtain ⟨-, -, heq⟩ := polygonRow_spec hint hfits hrow
        exact hrow.trans (congrArg some heq)
    rw [hall] at hrows
    rw [← Option.some.inj hrows]

theorem not_filled_of_nil {x y : Int} (h : crossings polygons y = []) :
    ¬ Filled polygons mode x y := by
  unfold Filled
  rw [h]
  split_ifs
  · exact fun h => by simp at h
  · exact fun h => h rfl

theorem narrow_fillSpans (l : List Intersection) : Narrow (fillSpans mode l) := by
  have halternate (l : List Intersection) : Narrow (alternateSpans l) := by
    fun_induction alternateSpans l with
    | case1 a b l xStart xEnd hne ih =>
      exact List.forall_mem_cons.mpr ⟨⟨toInt16_mem _, toInt16_mem _⟩, ih⟩
    | case2 a b l xStart xEnd hne ih => exact ih
    | case3 l hl => exact nofun
  have hwinding (winding startX : Int) : Narrow (windingSpans winding startX l) := by
    fun_induction windingSpans winding startX l with
    | case1 => exact nofun
    | case2 =>
      rename_i ih
      exact List.forall_mem_cons.mpr ⟨⟨toInt16_mem _, toInt16_mem _⟩, ih⟩
    | case3 => assumption
    | case4 => assumption
  unfold fillSpans
  split_ifs
  · exact halternate l
  · exact hwinding 0 0

/-- The region has the pixels of the rule, if the spans of each row can be counted. -/
theorem mem_pixels_regionOf (h : RegionHeap) (hint : InInt16 polygons)
    (hspans : ∀ y, (fillSpans mode (sortedRow polygons y)).length < 16384) {x y : Int} :
    (x, y) ∈ pixels (regionOf h polygons mode).1 (regionOf h polygons mode).2 ↔
      Filled polygons mode x y := by
  obtain ⟨hlow, hhigh⟩ := hint.yRangeOf
  unfold regionOf
  by_cases hempty : (yRangeOf polygons).1 ≥ (yRangeOf polygons).2
  · rw [if_pos hempty]
    refine iff_of_false (fun hmem => ?_) (not_filled_of_nil ?_)
    · rw [pixels_cdEmptyRegion] at hmem
      exact hmem
    · by_contra hne
      have hy := mem_range_of_crossings hne
      omega
  · rw [if_neg hempty, toInt16_of_mem hlow (by omega)]
    have hrow := @regionRow_range h _
      ((yRangeOf polygons).2 - (yRangeOf polygons).1).toNat
      (fun k : Nat => (fillSpans mode (sortedRow polygons ((yRangeOf polygons).1 + k)), false))
      hlow (by omega) (fun _ _ => ⟨narrow_fillSpans _, Nat.le_of_lt_succ (hspans _)⟩)
      (fun _ _ => nofun) (y - (yRangeOf polygons).1)
    rw [add_sub_cancel] at hrow
    rw [mem_pixels, polygonRows, hrow]
    by_cases hy : 0 ≤ y - (yRangeOf polygons).1 ∧
        y - (yRangeOf polygons).1 < ((yRangeOf polygons).2 - (yRangeOf polygons).1).toNat
    · rw [if_pos hy, Int.toNat_of_nonneg hy.1, add_sub_cancel]
      exact inSpans_fillSpans hint
    · rw [if_neg hy]
      refine iff_of_false (fun ⟨s, hs, _⟩ => List.not_mem_nil hs) (not_filled_of_nil ?_)
      by_contra hne
      have hy := mem_range_of_crossings hne
      omega

end Region

/-- A call returns, and the region follows the fill rule, in the rows of the points. -/
def FollowsFillRule (e : Allocator) (h : RegionHeap) (polygons : List (List (Int × Int)))
    (mode : Int) : Prop :=
  ∃ fuel h' rgn, createRegion e fuel h polygons mode = some (h', rgn) ∧
    (∀ x y, (x, y) ∈ pixels h' rgn ↔ Filled polygons mode x y) ∧
      ∀ x y, (x, y) ∈ pixels h' rgn →
        (∃ p ∈ polygons.flatten, p.2 ≤ y) ∧ ∃ p ∈ polygons.flatten, y < p.2

/-- The rule gives no row more spans than 14 bits can count. -/
def FewSpans (polygons : List (List (Int × Int))) (mode : Int) : Prop :=
  ∀ y, (fillSpans mode (sortedRow polygons y)).length < 16384

theorem length_crossings (polygons : List (List (Int × Int))) (y : Int) :
    (crossings polygons y).length ≤ polygons.flatten.length := by
  have hedges (points : List (Int × Int)) : (edgesOf points).length ≤ points.length := by
    unfold edgesOf
    split_ifs
    · exact Nat.zero_le _
    · rw [List.length_zip, List.length_rotate, Nat.min_self]
  refine (List.length_filter_le _ _).trans ?_
  induction polygons with
  | nil => exact Nat.le_refl _
  | cons points polygons ih =>
    rw [List.flatMap_cons, List.length_append, List.flatten_cons, List.length_append]
    exact Nat.add_le_add (hedges points) ih

/-- Two crossings for each span, so that there is room for all of them in `scanline_x`. -/
theorem length_fillSpans {polygons : List (List (Int × Int))} (hint : InInt16 polygons)
    (mode y : Int) :
    2 * (fillSpans mode (sortedRow polygons y)).length ≤ (crossings polygons y).length := by
  have hsorted := sortedRow_sorted polygons y
  have hlen : (sortedRow polygons y).length = (crossings polygons y).length := by
    rw [(sortedRow_perm hint).length_eq, List.length_map]
  unfold fillSpans
  rw [← hlen]
  split_ifs
  · rw [alternateSpans_eq hsorted hint.sortedRow]
    exact (length_evenOdd _).trans (Nat.le_of_eq (List.length_map _))
  · rw [windingSpans_eq hsorted hint.sortedRow fun h => absurd rfl h]
    exact (length_nonZero 0 0 _).trans (Nat.le_of_eq (List.length_map _))

theorem fewSpans_of_few {polygons : List (List (Int × Int))} {mode : Int} (hint : InInt16 polygons)
    (hfew : ∀ y, (crossings polygons y).length < 32768) : FewSpans polygons mode := by
  intro y
  have hlen := length_fillSpans hint mode y
  have hlt := hfew y
  omega

theorem Filled.between {polygons : List (List (Int × Int))} {mode x y : Int}
    (h : Filled polygons mode x y) :
    (∃ p ∈ polygons.flatten, p.2 ≤ y) ∧ ∃ p ∈ polygons.flatten, y < p.2 := by
  have hne : crossings polygons y ≠ [] := fun hnil => not_filled_of_nil hnil h
  obtain ⟨edge, hedge⟩ := List.exists_mem_of_ne_nil _ hne
  obtain ⟨⟨points, hp, he⟩, hcross⟩ := mem_crossings.mp hedge
  obtain ⟨-, h1, h2⟩ := mem_edgesOf he
  have hm1 := List.mem_flatten_of_mem hp h1
  have hm2 := List.mem_flatten_of_mem hp h2
  rcases hcross with hc | hc
  · exact ⟨⟨_, hm1, hc.1⟩, _, hm2, hc.2⟩
  · exact ⟨⟨_, hm2, hc.1⟩, _, hm1, hc.2⟩

/--
**Polygons.** The region follows the fill rule if every number has room, and there is none if a
product, the points or the crossings of a row are too much for theirs.
-/
theorem polygon_followsFillRule {polygons : List (List (Int × Int))} (hint : InInt16 polygons)
    (e : Allocator) (h : RegionHeap) (mode : Int) :
    (Drawable polygons → FewSpans polygons mode → FollowsFillRule e h polygons mode) ∧
      (¬ Drawable polygons → ¬ FollowsFillRule e h polygons mode) := by
  refine ⟨fun hd hspans => ?_, fun hno hrule => ?_⟩
  · exact ⟨13, _, _, createRegion_of_drawable e h mode hint hd (by decide),
      fun x y => mem_pixels_regionOf h hint hspans,
      fun x y hmem => ((mem_pixels_regionOf h hint hspans).mp hmem).between⟩
  · obtain ⟨fuel, h', rgn, hcreate, -⟩ := hrule
    exact hno (createRegion_spec hint hcreate).1

/-- A triangle of three edges, each of them short. -/
def small : List (List (Int × Int)) := [[(0, 0), (10, 0), (0, 10)]]

theorem polygon_followsFillRule_small :
    FollowsFillRule ⟨id, fun _ => Nat.le_refl _, fun _ _ => 0⟩ ⟨fun _ => none, 0, fun i => i⟩ small
      polygonAlternate := by
  have hint : InInt16 small := by
    unfold InInt16 small int16s
    simp only [List.forall_mem_singleton, List.forall_mem_cons, Set.mem_Icc]
    decide
  have hfew (y : Int) : (crossings small y).length ≤ 3 := length_crossings small y
  refine (polygon_followsFillRule hint _ _ _).1 ⟨by decide, fun y edge hedge => ?_,
    fun y => (hfew y).trans (by decide)⟩
    (fewSpans_of_few hint fun y => (hfew y).trans_lt (by decide))
  obtain ⟨hmem, hcross⟩ := List.mem_filter.mp hedge
  have hcross := of_decide_eq_true hcross
  have hedges : small.flatMap edgesOf =
      [((0, 0), (10, 0)), ((10, 0), (0, 10)), ((0, 10), (0, 0))] := by decide
  rw [hedges] at hmem
  unfold Edge.Crosses at hcross
  unfold Edge.product FitsInt
  rcases List.mem_cons.mp hmem with rfl | hmem
  · dsimp only at hcross ⊢
    omega
  rcases List.mem_cons.mp hmem with rfl | hmem
  · dsimp only at hcross ⊢
    omega
  obtain rfl := List.mem_singleton.mp hmem
  dsimp only at hcross ⊢
  omega

/-- A triangle as wide and as high as the coordinates allow. -/
def widest : List (List (Int × Int)) := [[(-32768, -32768), (32767, 32767), (-32768, 32767)]]

theorem inInt16_widest : InInt16 widest := by
  unfold InInt16 widest int16s
  simp only [List.forall_mem_singleton, List.forall_mem_cons, Set.mem_Icc]
  decide

theorem not_followsFillRule_widest :
    ¬ ∀ (e : Allocator) (h : RegionHeap) (polygons : List (List (Int × Int))) (mode : Int),
      InInt16 polygons → FollowsFillRule e h polygons mode := by
  intro hall
  obtain ⟨fuel, h', rgn, hcreate, -⟩ := hall ⟨id, fun _ => Nat.le_refl _, fun _ _ => 0⟩
    ⟨fun _ => none, 0, fun i => i⟩ widest polygonAlternate inInt16_widest
  have hproduct := (createRegion_spec inInt16_widest hcreate).1.products 1
    ((-32768, -32768), (32767, 32767)) (by decide)
  exact absurd hproduct (by decide)

end Nolrem.Cd
