import Nolrem.Cd.Region
import Nolrem.Lib.Stored

/-!
# Building a region

`BuildNewRegion`, `AddScanline` and `FinishRegion` of `kernel/CLIPDRAW/region.c`: a region is made
row by row, and rows that are the same become one band. No allocation fails.
-/

namespace Nolrem.Cd

open Nolrem.Lib

/-! ## The data -/

/-- `struct region_build_context`, as zero-initialised where no value is given. -/
structure BuildContext where
  /-- The `current_spans` spans of the rows that are not encoded yet, or `NULL`. -/
  currentPoints : Option (List (Int × Int)) := none
  currentHeight : Nat := 0
  currentPtr : Nat := 0
  prevX0 : Nat → Int := fun _ => 0
  prevX1 : Nat → Int := fun _ => 0
  prevY1 : Int := 0
  prevSpans : Nat := 0
  /-- The first `prev_small_output_len` bytes. -/
  prevSmallOutput : List Nat := []
  count0x7F : Nat := 0

/-- A region that is being built: its block and the context. -/
structure Building where
  usedLength : Nat
  allocatedLength : Nat
  data : RegionData
  ctxt : BuildContext

/-! ## The block -/

/-- A round of the loop of `ExpandToFit`. -/
def nextAlloc (newAlloc : Nat) : Nat :=
  if newAlloc < 512 then newAlloc * 2
  else if newAlloc &&& (newAlloc <<< 1) = 0 then newAlloc + newAlloc >>> 1
  else newAlloc / 3 * 4

/-- The loop of `ExpandToFit`. -/
def growAlloc (newUsed : Nat) : Nat → Nat → Nat
  | 0, newAlloc => newAlloc
  | fuel + 1, newAlloc =>
    if newAlloc ≤ newUsed then growAlloc newUsed fuel (nextAlloc newAlloc) else newAlloc

namespace Building

variable (r : Building)

/-- `ExpandToFit` -/
def expandToFit (extraBytes : Nat) : Building :=
  let newUsed := r.usedLength + extraBytes
  { r with
    usedLength := newUsed
    allocatedLength := growAlloc newUsed (newUsed + 1) r.allocatedLength }

/-- `ptr[ctxt->current_ptr++] = b` for each of the bytes -/
def emit (bytes : List Nat) : Building :=
  { r with
    data.band := store r.data.band r.ctxt.currentPtr bytes
    ctxt.currentPtr := r.ctxt.currentPtr + bytes.length }

/-- `ptr[ctxt->current_ptr - 1] = b` -/
def patch (b : Nat) : Building :=
  { r with data.band := Function.update r.data.band (r.ctxt.currentPtr - 1) b }

end Building

/-! ## Bytes -/

/-- `(uint16_t) n` -/
def uint16 (n : Int) : Nat := (BitVec.ofInt 16 n).toNat

/-- An `int16_t` as `memcpy` writes it. -/
def int16Bytes (n : Int) : List Nat := [uint16 n % 256, uint16 n / 256]

def fullSpans (points : List (Int × Int)) : List Nat :=
  points.flatMap fun s => int16Bytes s.1 ++ int16Bytes s.2

/-- The top byte of the first `x`. -/
def topByte : List (Int × Int) → Nat
  | [] => 0
  | s :: _ => uint16 s.1 / 256

/-- All have the top byte of the first. -/
def haveTopByte (points : List (Int × Int)) : Bool :=
  points.all fun s => uint16 s.1 / 256 == topByte points && uint16 s.2 / 256 == topByte points

def lowBytes (points : List (Int × Int)) : List Nat :=
  points.flatMap fun s => [uint16 s.1 % 256, uint16 s.2 % 256]

/-! ## Small mode -/

namespace BuildContext

variable (c : BuildContext)

/-- A difference that four bits can hold. -/
def smallDiff (old new : Int) : Bool := -8 ≤ toInt16 (new - old) && toInt16 (new - old) ≤ 7

/-- The loop that tells whether small mode is possible, from span `i` on. -/
def possible : Nat → List (Int × Int) → Bool
  | _, [] => true
  | i, s :: points =>
    smallDiff (c.prevX0 i) s.1 && smallDiff (c.prevX1 i) s.2 && possible (i + 1) points

/-- `(uint8_t) (adj + 8)` -/
def adjPart (old new : Int) : Nat := ((new - old + 8) % 256).toNat

/-- The loop that makes a byte of each span, from span `i` on. -/
def adjBytes : Nat → List (Int × Int) → List Nat
  | _, [] => []
  | i, s :: points =>
    (16 * adjPart (c.prevX1 i) s.2 + adjPart (c.prevX0 i) s.1) % 256 :: adjBytes (i + 1) points

/-- `small_output`, whose first byte is the control byte. -/
def smallOutput (points : List (Int × Int)) : List Nat :=
  (points.length + 16 * (c.currentHeight - 1)) :: c.adjBytes 0 points

/-- Small mode can be used. -/
def useSmall (numBands : Nat) (points : List (Int × Int)) : Bool :=
  points.length = c.prevSpans && points.length ≠ 0 && c.currentHeight ≤ 8 && points.length ≤ 15 &&
    0 < numBands && c.possible 0 points &&
    -- these two control bytes mean that a band is repeated
    points.length + 16 * (c.currentHeight - 1) ≠ 0x7F &&
    points.length + 16 * (c.currentHeight - 1) ≠ 0x7E

end BuildContext

/-- The loop that keeps the first 16 values, from number `i` on. -/
def setPrev (prev : Nat → Int) : Nat → List Int → Nat → Int
  | _, [] => prev
  | i, x :: xs => setPrev (if i < 16 then Function.update prev i x else prev) (i + 1) xs

/-! ## `AddScanline` -/

namespace Building

variable (r : Building)

/-- Small mode: the same output as the last one is counted. -/
def encodeSmall (output : List Nat) : Building :=
  if output = r.ctxt.prevSmallOutput then
    if r.ctxt.count0x7F = 0 then
      let r := (r.expandToFit 1).emit [0x7F]
      { r with ctxt.count0x7F := 1 }
    else if r.ctxt.count0x7F = 1 then
      let r := ((r.expandToFit 1).patch 0x7E).emit [0]
      { r with ctxt.count0x7F := 2 }
    else
      let count := r.ctxt.count0x7F + 1
      let r := r.patch ((count - 2) % 256)
      { r with ctxt.count0x7F := if count - 2 = 0xFF then 0 else count }
  else
    let r := (r.expandToFit output.length).emit output
    { r with ctxt.prevSmallOutput := output, ctxt.count0x7F := 0 }

/-- Regular mode. A gap is not encoded. -/
def encodeRegular (points : List (Int × Int)) : Building :=
  let spans := points.length
  let y0 := r.ctxt.prevY1
  let r := { r with ctxt.count0x7F := 0 }
  if spans = 0 then r
  else if spans ≤ 0x1F ∧ r.ctxt.currentHeight = 1 ∧ 0 < r.data.numBands then
    if haveTopByte points then
      (r.expandToFit (3 + spans * 2 + 1)).emit
        ((0x80 + 0x20 + spans % 32) :: int16Bytes y0 ++ topByte points :: lowBytes points)
    else
      (r.expandToFit (3 + spans * 4)).emit
        ((0x80 + spans % 32) :: int16Bytes y0 ++ fullSpans points)
  else
    (r.expandToFit (6 + spans * 4)).emit
      ((0x80 + 0x40 + spans % 64) :: (spans / 64 % 256) :: int16Bytes y0 ++
        int16Bytes (y0 + r.ctxt.currentHeight) ++ fullSpans points)

/-- What is done once a band is encoded. -/
def doneEncoding (points : List (Int × Int)) : Building :=
  let r :=
    if points.length ≠ 0 then
      { r with
        data.numBands := (r.data.numBands + 1) % 65536
        ctxt.prevX0 := setPrev r.ctxt.prevX0 0 (points.map Prod.fst)
        ctxt.prevX1 := setPrev r.ctxt.prevX1 0 (points.map Prod.snd) }
    else r
  { r with
    ctxt.prevY1 := toInt16 (r.ctxt.prevY1 + r.ctxt.currentHeight)
    ctxt.prevSpans := points.length
    ctxt.currentPoints := none }

/-- The rows that are kept in the context are encoded. -/
def flush (points : List (Int × Int)) : Building :=
  let r :=
    if r.ctxt.useSmall r.data.numBands points then r.encodeSmall (r.ctxt.smallOutput points)
    else r.encodeRegular points
  r.doneEncoding points

/-- The new spans are kept in the context. -/
def keep (points : List (Int × Int)) : Building :=
  { r with ctxt.currentPoints := some points, ctxt.currentHeight := 1 }

/-- `AddScanline`; `none` stands for -1 spans. -/
def addScanline (scanline : Option (List (Int × Int))) (knownToBeSameAsPrev : Bool) : Building :=
  match r.ctxt.currentPoints, scanline with
  | none, none => { r with ctxt.currentPtr := 0 }
  | none, some points =>
    let r := { r with ctxt.currentPtr := 0 }
    if points.length = 0 then { r with ctxt.prevY1 := toInt16 (r.ctxt.prevY1 + 1) }
    else
      let r := { r with ctxt.count0x7F := 0 }
      r.keep points
  | some current, none => r.flush current
  | some current, some points =>
    if current.length = points.length ∧
        (current.length = 0 ∨ knownToBeSameAsPrev ∨ current = points) ∧
        r.ctxt.currentHeight < 32000 then
      { r with ctxt.currentHeight := r.ctxt.currentHeight + 1 }
    else (r.flush current).keep points

end Building

/-- `BuildNewRegion`, on a block with the bytes `stale` and a context that is zero -/
def buildNewRegion (stale : Nat → Nat) (y0 : Int) : Building where
  usedLength := sizeofRegionData
  allocatedLength := 32
  data := { numBands := 0, transX := 0, transY := 0, band := stale }
  ctxt := { prevY1 := y0 }

/-- `FinishRegion`. The block of a region without bands is freed. -/
def finishRegion (h : RegionHeap) (r : Building) : RegionHeap × Region :=
  let r := r.addScanline none false
  if r.data.numBands = 0 then (h, cdEmptyRegion)
  else
    ({ h with block := Function.update h.block h.next (some r.data), next := h.next + 1 },
      { data := some h.next, usedLength := r.usedLength, allocatedLength := r.allocatedLength })

/-- A row: its spans, and whether they are known to be those of the row before. -/
abbrev Row := List (Int × Int) × Bool

/-- A caller makes a region row by row. -/
def buildRegion (h : RegionHeap) (y0 : Int) (rows : List Row) : RegionHeap × Region :=
  finishRegion h
    (rows.foldl (fun r row => r.addScanline (some row.1) row.2) (buildNewRegion h.behind y0))

end Nolrem.Cd
