import Nolrem.Cd.DynamicArray
import Nolrem.Cd.PolyPolygon
import Nolrem.Cd.RegionRoundTrip
import Nolrem.Lib.FillRule

/-!
# Regions of polygons

`CdCreatePolyPolygonRegion` of `kernel/CLIPDRAW/fully_pageable/polygon.c`, and the crossings and the
spans of each of its rows. No allocation fails.
-/

namespace Nolrem.Cd

open Nolrem.Lib

/-! ## The code -/

/-- `POLYGON_ALTERNATE` -/
def polygonAlternate : Int := 0

/-- `struct intersection` -/
structure Intersection where
  x : Int
  direction : Int

def Intersection.bytes (i : Intersection) : List Nat := intBytes i.x ++ intBytes i.direction

/-- The `struct intersection` that eight bytes are. -/
def intersectionOf (bytes : List Nat) : Intersection := ⟨intOf (bytes.take 4), intOf (bytes.drop 4)⟩

/-- `IntersectionComparator` -/
def intersectionComparator (a b : List Nat) : Int :=
  let ai := intersectionOf a
  let bi := intersectionOf b
  if ai.x < bi.x then -1 else if ai.x > bi.x then 1 else 0

/-- An edge, from its first point to its second. -/
abbrev Edge := (Int × Int) × (Int × Int)

/-- The scanline crosses the edge. -/
def Edge.Crosses (edge : Edge) (y : Int) : Prop :=
  y ≥ edge.1.2 ∧ y < edge.2.2 ∨ y ≥ edge.2.2 ∧ y < edge.1.2

instance (edge : Edge) (y : Int) : Decidable (edge.Crosses y) := inferInstanceAs (Decidable (_ ∨ _))

/-- What is done with an edge in row `y`. -/
def insertEdge (e : Allocator) (fuel : Nat) (y : Int) (intersections : DynamicArray)
    (edge : Edge) : Option DynamicArray :=
  let x0 := edge.1.1
  let y0 := edge.1.2
  let x1 := edge.2.1
  let y1 := edge.2.2
  if y0 = y1 then some intersections
  else if edge.Crosses y then do
    let width ← cInt (x1 - x0)
    let below ← cInt (y - y0)
    let height ← cInt (y1 - y0)
    -- `long` has 32 bits as well
    let product ← cInt (width * below)
    let quotient ← cInt (product.tdiv height)
    let x ← cInt (x0 + quotient)
    insertDynamicArray e fuel intersections
      (Intersection.bytes ⟨x, if y0 < y1 then 1 else -1⟩)
  else some intersections

/-- What is done with a polygon of `c` points, which begin at `polyOffset`. -/
def insertPolygon (e : Allocator) (fuel : Nat) (px py : Int → Int) (y polyOffset c : Int)
    (intersections : DynamicArray) : Option DynamicArray :=
  if 3 ≤ c then
    (List.range c.toNat).foldlM
      (fun intersections i =>
        let next := (i + 1) % c.toNat
        insertEdge e fuel y intersections
          ((px (polyOffset + i), py (polyOffset + i)),
            (px (polyOffset + next), py (polyOffset + next))))
      intersections
  else some intersections

/-- The loop over the polygons, from the one whose points begin at `polyOffset` on. -/
def insertEdges (e : Allocator) (fuel : Nat) (px py : Int → Int) (y : Int) :
    Int → List Int → DynamicArray → Option DynamicArray
  | _, [], intersections => some intersections
  | polyOffset, c :: counts, intersections => do
    let intersections ← insertPolygon e fuel px py y polyOffset c intersections
    let polyOffset ← cInt (polyOffset + c)
    insertEdges e fuel px py y polyOffset counts intersections

/-- The spans of the even-odd rule. -/
def alternateSpans : List Intersection → List (Int × Int)
  | a :: b :: isects =>
    let xStart := if a.x > b.x then b.x else a.x
    let xEnd := if a.x > b.x then a.x else b.x
    if xStart ≠ xEnd then (toInt16 xStart, toInt16 xEnd) :: alternateSpans isects
    else alternateSpans isects
  | _ => []

/-- The spans of the non-zero winding rule. -/
def windingSpans : Int → Int → List Intersection → List (Int × Int)
  | _, _, [] => []
  | winding, startX, i :: isects =>
    let startX := if winding = 0 then i.x else startX
    let winding := winding + i.direction
    if winding = 0 then
      let xEnd := if startX > i.x then startX else i.x
      let startX := if startX > i.x then i.x else startX
      if startX < xEnd then (toInt16 startX, toInt16 xEnd) :: windingSpans winding startX isects
      else windingSpans winding startX isects
    else windingSpans winding startX isects

def fillSpans (mode : Int) (isects : List Intersection) : List (Int × Int) :=
  if mode = polygonAlternate then alternateSpans isects else windingSpans 0 0 isects

/-- The scanline `y`. -/
def polygonRow (e : Allocator) (fuel : Nat) (px py : Int → Int) (counts : List Int)
    (mode y : Int) : Option Row := do
  let intersections ← createDynamicArray e 8 8
  let intersections ← insertEdges e fuel px py y 0 counts intersections
  if intersections.used = 0 then some ([], false)
  else
    let intersections := sortDynamicArray intersectionComparator intersections
    some (fillSpans mode (intersections.elems.map intersectionOf), false)

/-- `total_points` -/
def totalPoints (counts : List Int) : Option Int :=
  counts.foldlM (fun total c => cInt (total + c)) 0

/-- `CdCreatePolyPolygonRegion`, `none` if it overflows or does not return -/
def cdCreatePolyPolygonRegion (e : Allocator) (fuel : Nat) (h : RegionHeap)
    (px py : Option (Int → Int)) (counts : Option (List Int)) (mode : Int) :
    Option (RegionHeap × Region) :=
  match px, py, counts with
  | some px, some py, some counts =>
    if counts = [] then some (h, cdEmptyRegion)
    else do
      let _ ← totalPoints counts
      let (yMin, yMax) := Polygon.yRange py (32767, -32768) 0 counts
      if yMin ≥ yMax then some (h, cdEmptyRegion)
      else
        let rows ← (List.range (yMax - yMin).toNat).mapM fun (k : Nat) =>
          polygonRow e fuel px py counts mode (yMin + k)
        some (buildRegion h (toInt16 yMin) rows)
  | _, _, _ => some (h, cdEmptyRegion)

/-! ## What is to be filled -/

/-- The edges of a polygon, with the one that closes it. -/
def edgesOf (points : List (Int × Int)) : List Edge :=
  if points.length < 3 then [] else points.zip (points.rotate 1)

/-- The exact crossing, rounded as the division rounds. -/
def Edge.crossingX (edge : Edge) (y : Int) : Int :=
  edge.1.1 + ((edge.2.1 - edge.1.1) * (y - edge.1.2)).tdiv (edge.2.2 - edge.1.2)

def Edge.direction (edge : Edge) : Int := if edge.1.2 < edge.2.2 then 1 else -1

/-- The edges that cross row `y`. -/
def crossings (polygons : List (List (Int × Int))) (y : Int) : List Edge :=
  (polygons.flatMap edgesOf).filter fun edge => edge.Crosses y

/-- The fill rule, for the edges that cross the row at `x` or on its left. -/
def Filled (polygons : List (List (Int × Int))) (mode x y : Int) : Prop :=
  let left := (crossings polygons y).filter fun edge => edge.crossingX y ≤ x
  if mode = polygonAlternate then Odd left.length else (left.map Edge.direction).sum ≠ 0

/-- `px`, `py` and `counts` for a list of polygons. -/
def arrayX (polygons : List (List (Int × Int))) (i : Int) : Int :=
  (polygons.flatten.getD i.toNat (0, 0)).1

def arrayY (polygons : List (List (Int × Int))) (i : Int) : Int :=
  (polygons.flatten.getD i.toNat (0, 0)).2

def arrayCounts (polygons : List (List (Int × Int))) : List Int :=
  polygons.map fun points => (points.length : Int)

/-! ## Edges -/

section Edges

variable {polygons : List (List (Int × Int))} {points : List (Int × Int)} {edge : Edge} {y : Int}

theorem mem_edgesOf (h : edge ∈ edgesOf points) :
    3 ≤ points.length ∧ edge.1 ∈ points ∧ edge.2 ∈ points := by
  unfold edgesOf at h
  split_ifs at h with hfew
  · exact absurd h List.not_mem_nil
  · obtain ⟨h1, h2⟩ := List.of_mem_zip (a := edge.1) (b := edge.2) h
    exact ⟨Nat.not_lt.mp hfew, h1, List.mem_rotate.mp h2⟩

theorem mem_crossings : edge ∈ crossings polygons y ↔
    (∃ points ∈ polygons, edge ∈ edgesOf points) ∧ edge.Crosses y := by
  unfold crossings
  rw [List.mem_filter, List.mem_flatMap, decide_eq_true_iff]

/-- A curve that is closed crosses the row downwards as often as upwards. -/
theorem sum_direction (polygons : List (List (Int × Int))) (y : Int) :
    ((crossings polygons y).map Edge.direction).sum = 0 := by
  have hside (edge : Edge) : (if edge.Crosses y then edge.direction else 0) =
      (if edge.1.2 ≤ y then 1 else 0) - if edge.2.2 ≤ y then 1 else 0 := by
    unfold Edge.Crosses Edge.direction
    split_ifs <;> omega
  have hclosed (points : List (Int × Int)) :
      ((edgesOf points).map fun edge : Edge => if edge.Crosses y then edge.direction else 0).sum =
        0 := by
    unfold edgesOf
    split_ifs
    · rfl
    · simp only [hside]
      exact sum_zip_rotate (fun p : Int × Int => if p.2 ≤ y then (1 : Int) else 0) points 1
  unfold crossings
  rw [sum_map_filter]
  induction polygons with
  | nil => rfl
  | cons points polygons ih =>
    rw [List.flatMap_cons, List.map_append, List.sum_append, hclosed, ih, Int.add_zero]

theorem even_crossings (polygons : List (List (Int × Int))) (y : Int) :
    Even (crossings polygons y).length := by
  rw [← List.length_map Edge.direction, even_length_of_odd, sum_direction]
  · exact Even.zero
  · intro d hd
    obtain ⟨edge, -, rfl⟩ := List.mem_map.mp hd
    unfold Edge.direction
    split_ifs <;> decide

/-- What `long` has to hold for the crossing. -/
def Edge.product (edge : Edge) (y : Int) : Int := (edge.2.1 - edge.1.1) * (y - edge.1.2)

/-- Part of the way from 0 to `a`. -/
theorem tdiv_between {a t h : Int} (h0 : 0 ≤ t) (hle : t ≤ h) :
    min 0 a ≤ (a * t).tdiv h ∧ (a * t).tdiv h ≤ max 0 a := by
  have hpos {a : Int} (ha : 0 ≤ a) : 0 ≤ (a * t).tdiv h ∧ (a * t).tdiv h ≤ a := by
    have hmul := Int.mul_nonneg ha h0
    rw [Int.tdiv_eq_ediv_of_nonneg hmul]
    refine ⟨Int.ediv_nonneg hmul (h0.trans hle), ?_⟩
    rcases (h0.trans hle).eq_or_lt with rfl | hlt
    · rwa [Int.ediv_zero]
    · exact Int.ediv_le_of_le_mul hlt (Int.mul_le_mul_of_nonneg_left hle ha)
  rcases Int.le_total 0 a with ha | ha
  · have := hpos ha
    omega
  · have hneg := hpos (a := -a) (by omega)
    rw [Int.neg_mul, Int.neg_tdiv] at hneg
    omega

/-- The crossing is between both ends of the edge. -/
theorem Edge.crossingX_between (h : edge.Crosses y) :
    min edge.1.1 edge.2.1 ≤ edge.crossingX y ∧ edge.crossingX y ≤ max edge.1.1 edge.2.1 := by
  unfold Edge.crossingX
  rcases h with ⟨h0, h1⟩ | ⟨h1, h0⟩
  · have hq := tdiv_between (a := edge.2.1 - edge.1.1) (t := y - edge.1.2)
      (h := edge.2.2 - edge.1.2) (by omega) (by omega)
    omega
  · have hq := tdiv_between (a := edge.2.1 - edge.1.1) (t := edge.1.2 - y)
      (h := edge.1.2 - edge.2.2) (by omega) (by omega)
    rw [← Int.neg_tdiv_neg, ← Int.mul_neg, Int.neg_sub, Int.neg_sub] at hq
    omega

/-- The coordinates are `int16_t`. -/
def InInt16 (polygons : List (List (Int × Int))) : Prop :=
  ∀ points ∈ polygons, ∀ p ∈ points, p.1 ∈ int16s ∧ p.2 ∈ int16s

theorem InInt16.ends (h : InInt16 polygons) {points : List (Int × Int)} (hp : points ∈ polygons)
    (he : edge ∈ edgesOf points) :
    (edge.1.1 ∈ int16s ∧ edge.1.2 ∈ int16s) ∧ edge.2.1 ∈ int16s ∧ edge.2.2 ∈ int16s := by
  obtain ⟨-, h1, h2⟩ := mem_edgesOf he
  exact ⟨h points hp _ h1, h points hp _ h2⟩

theorem InInt16.crossingX (h : InInt16 polygons) (he : edge ∈ crossings polygons y) :
    edge.crossingX y ∈ int16s := by
  obtain ⟨⟨points, hp, hedge⟩, hcross⟩ := mem_crossings.mp he
  obtain ⟨⟨hx0, -⟩, hx1, -⟩ := h.ends hp hedge
  have hbetween := Edge.crossingX_between hcross
  unfold int16s at *
  rw [Set.mem_Icc] at *
  omega

end Edges

/-! ## The crossings of a row -/

def Edge.intersection (edge : Edge) (y : Int) : Intersection := ⟨edge.crossingX y, edge.direction⟩

/-- What is inserted for the edges that cross the row. -/
def rowData (edges : List Edge) (y : Int) : List (List Nat) :=
  (edges.filter fun edge => edge.Crosses y).map fun edge => (edge.intersection y).bytes

section Row

variable {e : Allocator} {fuel : Nat} {polygons : List (List (Int × Int))} {edge : Edge}
  {edges : List Edge} {y : Int} {da da' : DynamicArray}

theorem insertEdge_of_crosses (hcross : edge.Crosses y)
    (hint : (edge.1.1 ∈ int16s ∧ edge.1.2 ∈ int16s) ∧ edge.2.1 ∈ int16s ∧ edge.2.2 ∈ int16s) :
    insertEdge e fuel y da edge =
      (cInt (edge.product y)).bind fun _ =>
        insertDynamicArray e fuel da (edge.intersection y).bytes := by
  obtain ⟨⟨hx0, hy0⟩, hx1, hy1⟩ := hint
  have hbetween := Edge.crossingX_between hcross
  unfold int16s at hx0 hy0 hx1 hy1
  rw [Set.mem_Icc] at hx0 hy0 hx1 hy1
  have hne : edge.1.2 ≠ edge.2.2 := by
    rcases hcross with h | h <;> omega
  have hbelow : FitsInt (y - edge.1.2) := by
    rcases hcross with h | h <;> exact ⟨by omega, by omega⟩
  unfold insertEdge
  dsimp only
  rw [if_neg hne, if_pos hcross, cInt_of_fits ⟨by omega, by omega⟩, cInt_of_fits hbelow,
    cInt_of_fits ⟨by omega, by omega⟩]
  simp only [Option.bind_eq_bind, Option.bind_some]
  unfold Edge.crossingX at hbetween
  by_cases hfits : FitsInt (edge.product y)
  · rw [cInt_of_fits hfits, Option.bind_some]
    unfold Edge.product at hfits
    rw [cInt_of_fits hfits, Option.bind_some, cInt_of_fits ⟨by omega, by omega⟩, Option.bind_some,
      cInt_of_fits ⟨by omega, by omega⟩, Option.bind_some]
    rfl
  · have hnone : cInt (edge.product y) = none := if_neg hfits
    rw [hnone, Option.bind_none]
    unfold Edge.product at hnone
    rw [hnone, Option.bind_none]

theorem insertEdge_of_not_crosses (hcross : ¬ edge.Crosses y) :
    insertEdge e fuel y da edge = some da := by
  unfold insertEdge
  dsimp only
  rw [if_neg hcross, ite_self]

/-- The edges of a row are inserted if their products fit and the array can grow. -/
theorem foldlM_insertEdge (hint : ∀ edge ∈ edges,
      (edge.1.1 ∈ int16s ∧ edge.1.2 ∈ int16s) ∧ edge.2.1 ∈ int16s ∧ edge.2.2 ∈ int16s) :
    edges.foldlM (insertEdge e fuel y) da = some da' ↔
      (∀ edge ∈ edges, edge.Crosses y → FitsInt (edge.product y)) ∧
        insertAll e fuel da (rowData edges y) = some da' := by
  induction edges generalizing da with
  | nil => exact (and_iff_right nofun).symm
  | cons edge edges ih =>
    obtain ⟨hedge, hint⟩ := List.forall_mem_cons.mp hint
    rw [List.foldlM_cons, List.forall_mem_cons]
    unfold rowData insertAll
    by_cases hcross : edge.Crosses y
    · rw [List.filter_cons_of_pos (by simpa using hcross), List.map_cons, List.foldlM_cons,
        insertEdge_of_crosses hcross hedge]
      by_cases hfits : FitsInt (edge.product y)
      · rw [cInt_of_fits hfits, Option.bind_some]
        simp only [Option.bind_eq_bind, Option.bind_eq_some_iff, ih hint]
        constructor
        · rintro ⟨mid, hmid, hrest, hins⟩
          exact ⟨⟨fun _ => hfits, hrest⟩, mid, hmid, hins⟩
        · rintro ⟨⟨-, hrest⟩, mid, hmid, hins⟩
          exact ⟨mid, hmid, hrest, hins⟩
      · have hnone : cInt (edge.product y) = none := if_neg hfits
        rw [hnone]
        exact iff_of_false nofun fun h => hfits (h.1.1 hcross)
    · rw [List.filter_cons_of_neg (by simpa using hcross), insertEdge_of_not_crosses hcross]
      exact (ih hint).trans
        (and_congr_left' ⟨fun h => ⟨fun hc => absurd hc hcross, h⟩, fun h => h.2⟩)

/-- The edges, point by point. -/
theorem zip_rotate_eq (points : List (Int × Int)) :
    points.zip (points.rotate 1) = (List.range points.length).map fun i =>
      (points.getD i (0, 0), points.getD ((i + 1) % points.length) (0, 0)) := by
  refine List.ext_getElem (by simp) fun i h1 h2 => ?_
  have hi : i < points.length := by simpa using h2
  have hnext : (i + 1) % points.length < points.length := Nat.mod_lt _ (by omega)
  rw [List.getElem_zip, List.getElem_rotate, List.getElem_map, List.getElem_range,
    List.getD_eq_getElem _ _ hi, List.getD_eq_getElem _ _ hnext]

/-- The points of a polygon in the arrays. -/
theorem array_getD (pre : List (Int × Int)) {points post : List (Int × Int)} {i : Nat}
    (hi : i < points.length) :
    (pre ++ (points ++ post)).getD ((pre.length : Int) + i).toNat (0, 0) =
      points.getD i (0, 0) := by
  rw [show ((pre.length : Int) + i).toNat = pre.length + i by omega,
    List.getD_append_right _ _ _ _ (Nat.le_add_right _ _), Nat.add_sub_cancel_left,
    List.getD_append _ _ _ _ hi]

theorem insertPolygon_eq (e : Allocator) (fuel : Nat) (y : Int) (da : DynamicArray)
    (pre points post : List (Int × Int)) {px py : Int → Int}
    (hx : ∀ i : Nat, px i = ((pre ++ (points ++ post)).getD i (0, 0)).1)
    (hy : ∀ i : Nat, py i = ((pre ++ (points ++ post)).getD i (0, 0)).2) :
    insertPolygon e fuel px py y pre.length points.length da =
      (edgesOf points).foldlM (insertEdge e fuel y) da := by
  have hpoint {i : Nat} (hi : i < points.length) :
      (px (pre.length + i), py (pre.length + i)) = points.getD i (0, 0) := by
    rw [← Int.natCast_add, hx, hy, List.getD_append_right _ _ _ _ (Nat.le_add_right _ _),
      Nat.add_sub_cancel_left, List.getD_append _ _ _ _ hi]
  have hedges : (List.range points.length).map (fun i : Nat =>
      ((px (pre.length + i), py (pre.length + i)),
        (px (pre.length + ((i + 1) % points.length : Nat)),
          py (pre.length + ((i + 1) % points.length : Nat))))) = points.zip (points.rotate 1) := by
    rw [zip_rotate_eq]
    refine List.map_congr_left fun i hi => ?_
    have hi := List.mem_range.mp hi
    rw [hpoint hi, hpoint (Nat.mod_lt _ (by omega))]
  unfold insertPolygon edgesOf
  rw [Int.toNat_natCast]
  split_ifs with h3 hfew hfew
  · omega
  · rw [← hedges, List.foldlM_map]
  · rfl
  · omega

theorem insertEdges_eq (pre : List (List (Int × Int)))
    (hfits : FitsInt ((pre ++ polygons).flatten.length : Nat)) :
    insertEdges e fuel (arrayX (pre ++ polygons)) (arrayY (pre ++ polygons)) y pre.flatten.length
        (arrayCounts polygons) da =
      (polygons.flatMap edgesOf).foldlM (insertEdge e fuel y) da := by
  induction polygons generalizing pre da with
  | nil => rfl
  | cons points polygons ih =>
    have hnext : ((pre.flatten.length : Int) + (points.length : Nat)) =
        ((pre ++ [points]).flatten.length : Nat) := by
      simp
    have hsplit : pre ++ points :: polygons = pre ++ [points] ++ polygons := by simp
    have hle : ((pre ++ [points]).flatten.length : Int) ≤
        ((pre ++ points :: polygons).flatten.length : Nat) := by
      have hflatten := congrArg List.length (@List.flatten_append _ (pre ++ [points]) polygons)
      rw [List.length_append] at hflatten
      rw [hsplit]
      omega
    have hflat : (pre ++ points :: polygons).flatten =
        pre.flatten ++ (points ++ polygons.flatten) := by simp
    have hx (i : Nat) : arrayX (pre ++ points :: polygons) i =
        ((pre.flatten ++ (points ++ polygons.flatten)).getD i (0, 0)).1 := by
      rw [arrayX, hflat, Int.toNat_natCast]
    have hy (i : Nat) : arrayY (pre ++ points :: polygons) i =
        ((pre.flatten ++ (points ++ polygons.flatten)).getD i (0, 0)).2 := by
      rw [arrayY, hflat, Int.toNat_natCast]
    have hfirst := insertPolygon_eq e fuel y da pre.flatten points polygons.flatten hx hy
    unfold arrayCounts
    rw [List.map_cons, insertEdges, hfirst, hnext, cInt_of_fits ⟨by omega, by
      have hhigh := hfits.2
      omega⟩, List.flatMap_cons, List.foldlM_append]
    simp only [Option.bind_eq_bind, Option.bind_some]
    refine Option.bind_congr fun da' _ => ?_
    rw [hsplit] at hfits ⊢
    exact ih (pre ++ [points]) hfits

end Row

/-! ## The spans of a row -/

theorem intersectionOf_bytes {i : Intersection} (hx : FitsInt i.x) (hd : FitsInt i.direction) :
    intersectionOf i.bytes = i := by
  obtain ⟨x, d⟩ := i
  unfold intersectionOf Intersection.bytes
  rw [List.take_left' (length_intBytes x), List.drop_left' (length_intBytes x),
    intOf_intBytes hx, intOf_intBytes hd]

theorem intersectionComparator_le {a b : List Nat} :
    intersectionComparator a b ≤ 0 ↔ (intersectionOf a).x ≤ (intersectionOf b).x := by
  unfold intersectionComparator
  dsimp only
  split_ifs <;> omega

theorem totalPreorder_intersectionComparator : TotalPreorder intersectionComparator where
  trans hab hbc := by
    rw [intersectionComparator_le] at *
    omega
  total a b := by
    rw [intersectionComparator_le, intersectionComparator_le]
    omega

/-- The crossings of a row in order. -/
def sortedRow (polygons : List (List (Int × Int))) (y : Int) : List Intersection :=
  (bubbleSort intersectionComparator (rowData (polygons.flatMap edgesOf) y)).map intersectionOf

section Spans

variable {e : Allocator} {fuel : Nat} {polygons : List (List (Int × Int))} {mode x y : Int}

theorem InInt16.fits_intersection (hint : InInt16 polygons) {edge : Edge}
    (he : edge ∈ crossings polygons y) :
    FitsInt (edge.intersection y).x ∧ FitsInt (edge.intersection y).direction := by
  have hx := hint.crossingX he
  unfold int16s at hx
  rw [Set.mem_Icc] at hx
  refine ⟨⟨by show -2147483648 ≤ edge.crossingX y; omega,
    by show edge.crossingX y ≤ 2147483647; omega⟩, ?_⟩
  show FitsInt edge.direction
  unfold Edge.direction
  split_ifs <;> decide

theorem sortedRow_perm (hint : InInt16 polygons) :
    (sortedRow polygons y).Perm ((crossings polygons y).map fun edge => edge.intersection y) := by
  have hperm := (@bubbleSort_perm _ intersectionComparator
    (rowData (polygons.flatMap edgesOf) y)).map intersectionOf
  have hmap : (rowData (polygons.flatMap edgesOf) y).map intersectionOf =
      (crossings polygons y).map fun edge => edge.intersection y := by
    show List.map _ (List.map _ (crossings polygons y)) = _
    rw [List.map_map]
    refine List.map_congr_left fun edge he => ?_
    obtain ⟨hx, hd⟩ := hint.fits_intersection he
    exact intersectionOf_bytes hx hd
  rwa [hmap] at hperm

theorem sortedRow_sorted (polygons : List (List (Int × Int))) (y : Int) :
    (sortedRow polygons y).Pairwise fun a b => a.x ≤ b.x :=
  (List.pairwise_map.mpr ((bubbleSort_sorted totalPreorder_intersectionComparator
    (rowData (polygons.flatMap edgesOf) y)).imp fun h => intersectionComparator_le.mp h))

theorem InInt16.sortedRow (hint : InInt16 polygons) :
    ∀ i ∈ Cd.sortedRow polygons y, i.x ∈ int16s := by
  intro i hi
  obtain ⟨edge, he, rfl⟩ := List.mem_map.mp ((sortedRow_perm hint).mem_iff.mp hi)
  exact hint.crossingX he

theorem toInt16_of_int16s {n : Int} (h : n ∈ int16s) : toInt16 n = n := toInt16_of_mem h.1 h.2

theorem alternateSpans_eq {l : List Intersection} (h : l.Pairwise fun a b => a.x ≤ b.x)
    (hint : ∀ i ∈ l, i.x ∈ int16s) : alternateSpans l = evenOdd (l.map Intersection.x) := by
  induction l using List.twoStepInduction with
  | nil => rfl
  | singleton a => rfl
  | cons_cons a b l ih _ =>
    obtain ⟨ha, -, hl⟩ := (List.pairwise_cons.trans (and_congr_right' List.pairwise_cons)).mp h
    have hab : a.x ≤ b.x := ha b List.mem_cons_self
    obtain ⟨hia, hib, hil⟩ :=
      (List.forall_mem_cons.trans (and_congr_right' List.forall_mem_cons)).mp hint
    rw [alternateSpans, if_neg hab.not_gt, if_neg hab.not_gt, toInt16_of_int16s hia,
      toInt16_of_int16s hib, ih hl hil, List.map_cons, List.map_cons, evenOdd_cons_cons]

theorem windingSpans_eq {l : List Intersection} {winding startX : Int}
    (h : l.Pairwise fun a b => a.x ≤ b.x) (hint : ∀ i ∈ l, i.x ∈ int16s)
    (hs : winding ≠ 0 → startX ∈ int16s ∧ ∀ i ∈ l, startX ≤ i.x) :
    windingSpans winding startX l = nonZero winding startX (l.map fun i => (i.x, i.direction)) := by
  induction l generalizing winding startX with
  | nil => rfl
  | cons i l ih =>
    obtain ⟨hi, hl⟩ := List.pairwise_cons.mp h
    obtain ⟨hii, hil⟩ := List.forall_mem_cons.mp hint
    rw [windingSpans, List.map_cons, nonZero]
    dsimp only
    have hstart : (if winding = 0 then i.x else startX) ≤ i.x ∧
        (if winding = 0 then i.x else startX) ∈ int16s := by
      split_ifs with hw
      · exact ⟨le_rfl, hii⟩
      · exact ⟨(hs hw).2 i List.mem_cons_self, (hs hw).1⟩
    generalize (if winding = 0 then i.x else startX) = t at hstart
    rw [if_neg hstart.1.not_gt, if_neg hstart.1.not_gt,
      ih hl hil fun _ => ⟨hstart.2, fun j hj => hstart.1.trans (hi j hj)⟩,
      toInt16_of_int16s hstart.2, toInt16_of_int16s hii]
    by_cases hw : winding + i.direction = 0
    · simp only [hw, if_true, true_and]
    · simp only [hw, if_false, false_and]

/-- Whatever the order of crossings in the same place, the spans follow the fill rule. -/
theorem inSpans_fillSpans (hint : InInt16 polygons) :
    InSpans (fillSpans mode (sortedRow polygons y)) x ↔ Filled polygons mode x y := by
  have hsorted := sortedRow_sorted polygons y
  have hperm := sortedRow_perm (y := y) hint
  unfold fillSpans Filled
  dsimp only
  split_ifs
  · rw [alternateSpans_eq hsorted hint.sortedRow,
      inSpans_evenOdd (List.pairwise_map.mpr hsorted), List.countP_map, hperm.countP_eq,
      List.countP_map, List.countP_eq_length_filter]
    · rfl
    · rw [List.length_map, hperm.length_eq, List.length_map]
      exact even_crossings polygons y
  · have hsum : ∀ l : List Intersection, (l.map fun i => (i.x, i.direction)).map Prod.snd =
        l.map Intersection.direction := fun l => by rw [List.map_map]; rfl
    rw [windingSpans_eq hsorted hint.sortedRow fun h => absurd rfl h,
      inSpans_nonZero (List.pairwise_map.mpr hsorted) fun h => absurd rfl h]
    · have hfilter := ((hperm.filter fun i => i.x ≤ x).map Intersection.direction).sum_eq
      rw [List.filter_map, List.map_map] at hfilter
      rw [List.filter_map, hsum, Int.zero_add]
      exact (and_iff_right fun h => absurd rfl h).trans (not_congr (Eq.congr_left hfilter))
    · rw [hsum, (hperm.map Intersection.direction).sum_eq, List.map_map, Int.zero_add]
      exact sum_direction polygons y

end Spans

end Nolrem.Cd
