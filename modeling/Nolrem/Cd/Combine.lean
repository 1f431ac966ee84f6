import Nolrem.Cd.Coroutine
import Nolrem.Lib.Sweep

/-!
# Combining two regions

`CdGetRegionCombinationEx` of `kernel/CLIPDRAW/region.c`: the rows at which something begins or ends
in one of the regions cut both into slices, and in each slice the spans are combined. The second
region may be given in the coordinates of a DC. No allocation fails, except that of no bytes at all,
which gives `NULL`.
-/

namespace Nolrem.Cd

open Nolrem.Lib (pairs sweep mergeAbove combine Parted InSpans)

/-! ## The code -/

/-- `REGION_COMBINE_INTERSECT`, `_UNION`, `_XOR`, `_DIFFERENCE` and any other number -/
inductive CombineMode where
  | intersect
  | union
  | xor
  | difference
  | other
deriving DecidableEq, Repr

/-- `CheckRegionCondition` -/
def checkRegionCondition : CombineMode → Bool → Bool → Bool
  | .intersect, a, b => a && b
  | .union, a, b => a || b
  | .xor, a, b => a ^^ b
  | .difference, a, b => a && !b
  | .other, _, _ => false

/-- A region while its edges are collected: `num_a_edges_buffer` values of `a_edges_buffer`. -/
structure EdgeSide where
  ctxt : Context := {}
  buffer : List Int := []

section Code

variable (dc : Option ScaleDc) (data : Option RegionData)

/-- The next two edges, by `RegionCombinationEdgeCallback`. -/
def EdgeSide.refill (s : EdgeSide) : EdgeSide :=
  if s.buffer.isEmpty && !s.ctxt.done then
    match s.ctxt.resume dc data false with
    | (.band y0 y1, c) => { ctxt := c, buffer := [toInt16 y0, toInt16 y1] }
    | (_, c) => { ctxt := c, buffer := [] }
  else s

/-- A region while the slices are made: the spans `a_x_points` of the rows from `a_y0` to `a_y1`. -/
structure LoadSide where
  ctxt : Context
  y0 : Int := -32769
  y1 : Int := -32769
  xPoints : List (Int × Int) := []
  numXSpans : Nat := 0

/-- A span is put into the array. A span that is mapped to one that ends before it begins is turned
round, and put in from the end. -/
def storeSpan (numSpans n : Nat) (points : List (Int × Int)) (x0 x1 : Int) : List (Int × Int) :=
  if dc.isSome ∧ x1 < x0 then points.set (numSpans - n - 1) (x1, x0) else points.set n (x0, x1)

/-- The loop that reads the spans of a band. -/
def readPoints : Nat → LoadSide → LoadSide
  | 0, s => s
  | fuel + 1, s =>
    match s.ctxt.resume dc data true with
    | (.rect x0 x1, c) =>
      readPoints fuel { s with
        ctxt := c
        xPoints := storeSpan dc c.header.numSpans s.numXSpans s.xPoints (toInt16 x0) (toInt16 x1)
        numXSpans := s.numXSpans + 1 }
    | (_, c) => { s with ctxt := c }

/-- `a_trans_y` -/
def transY : Int := (data.map fun d => d.transY.toInt).getD 0

/-- The band that the context stands in is read. -/
def loadBand (s : LoadSide) : Option LoadSide :=
  if s.ctxt.header.numSpans = 0 then none
  else some (readPoints dc data (s.ctxt.header.numSpans + 1)
    { ctxt := s.ctxt
      y0 := s.ctxt.scaledY0 + transY data
      y1 := s.ctxt.scaledY1 + transY data
      xPoints := List.replicate s.ctxt.header.numSpans (0, 0)
      numXSpans := 0 })

/-- The loop that reads bands up to one that does not end before `y0`. -/
def loadTo (y0 : Int) : Nat → LoadSide → Option LoadSide
  | 0, s => some s
  | fuel + 1, s =>
    if !s.ctxt.done && s.y1 ≤ y0 then (loadBand dc data s).bind (loadTo y0 fuel) else some s

/-- The spans of the slice that begins with row `y0`. -/
def LoadSide.spansAt (s : LoadSide) (y0 : Int) : List (Int × Int) :=
  if s.y0 ≤ y0 ∧ y0 < s.y1 ∧ !(s.ctxt.i == 0 && s.ctxt.done) then s.xPoints.take s.numXSpans else []

/-- `num_bands`, which is 0 for an empty region. -/
def numBandsOf : Nat := (data.map fun d => d.numBands).getD 0

end Code

section Slices

variable (mode : CombineMode) (dc : Option ScaleDc) (da db : Option RegionData)

/-- The loop that collects the edges of both regions in order. -/
def getEdges : Nat → EdgeSide → EdgeSide → Int → List Int
  | 0, _, _, _ => []
  | fuel + 1, a, b, previousWritten =>
    if a.ctxt.done && b.ctxt.done then []
    else
      let a := a.refill none da
      let b := b.refill dc db
      let write (y : Int) (rest : Int → List Int) :=
        if previousWritten < y then y :: rest y else rest previousWritten
      match a.buffer, b.buffer with
      | [], [] => []
      | x :: xs, [] => write x (getEdges fuel { a with buffer := xs } b)
      | [], y :: ys => write y (getEdges fuel a { b with buffer := ys })
      | x :: xs, y :: ys =>
        if y < x then write y (getEdges fuel a { b with buffer := ys })
        else write x (getEdges fuel { a with buffer := xs } b)

/-- The rows of a slice: all but the first are known to be as the one before. -/
def sliceRows (y0 y1 : Int) (spans : List (Int × Int)) : List Row :=
  (List.range (y1 - y0).toNat).map fun i => (spans, i != 0)

/-- The loop over the slices. -/
def addSlices : List Int → LoadSide → LoadSide → Option (List Row)
  | y0 :: y1 :: ys, a, b => do
    let a ← loadTo none da y0 (numBandsOf da) a
    let b ← loadTo dc db y0 (numBandsOf db) b
    let out := sweep (checkRegionCondition mode) (Lib.points (a.spansAt y0))
      (Lib.points (b.spansAt y0)) false false false []
    let rest ← addSlices (y1 :: ys) a b
    some (sliceRows y0 y1 (pairs out) ++ rest)
  | _, _, _ => some []

/-- The general path of `CdGetRegionCombinationEx`; an empty region has no data here. -/
def combineBands (h : RegionHeap) : RegionHeap × Region :=
  let edges := getEdges dc da db (2 * numBandsOf da + 2 * numBandsOf db + 1) {} {} (-32769)
  let a : LoadSide := { ctxt := (Context.resume none {} da false).2 }
  let b : LoadSide := { ctxt := (Context.resume dc {} db false).2 }
  match addSlices mode dc da db edges a b with
  | none => (h, cdBadRegion)
  | some rows => buildRegion h (edges.headD 0) rows

end Slices

/-- `CdGetRegionCombinationEx` -/
def cdGetRegionCombinationEx (h : RegionHeap) (mode : CombineMode) (a b : Region)
    (scaleDc : Option ScaleDc) : RegionHeap × Region :=
  if cdIsRegionBad a || cdIsRegionBad b then (h, cdBadRegion)
  else
    let aEmpty := cdIsRegionEmpty h a
    let bEmpty := cdIsRegionEmpty h b
    let general := combineBands mode scaleDc (if aEmpty then none else h.data a)
      (if bEmpty then none else h.data b) h
    if aEmpty || bEmpty then
      match mode with
      | .intersect => (h, cdEmptyRegion)
      | .difference => if aEmpty then (h, cdEmptyRegion) else cdCopyRegion h a
      | .union | .xor =>
        if bEmpty then cdCopyRegion h a
        else if scaleDc.isNone then cdCopyRegion h b
        else general
      | .other => (h, cdEmptyRegion)
    else general

/-- `CdGetRegionCombination` -/
def cdGetRegionCombination (h : RegionHeap) (mode : CombineMode) (a b : Region) :
    RegionHeap × Region := cdGetRegionCombinationEx h mode a b none

end Nolrem.Cd
