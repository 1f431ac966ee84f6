import Mathlib.Data.BitVec
import Mathlib.Data.Set.Basic
import Mathlib.Logic.Function.Basic
import Mathlib.Tactic.Common

/-!
# Regions

`struct region` and how `IterateRegionCoroutine` of `kernel/CLIPDRAW/region.c` goes through it, band
by band; with `CdCopyRegion`, `CdFreeRegion` and the small functions around them. The blocks of the
regions lie in a heap, so that two regions may share one.
-/

namespace Nolrem.Cd

/-! ## The data -/

/--
`struct region_data`. `band` is the bytes from `band_data` on, and behind the block whatever lies
there.
-/
structure RegionData where
  numBands : Nat
  transX : BitVec 16
  transY : BitVec 16
  band : Nat → Nat

/-- `sizeof(struct region_data)` -/
def sizeofRegionData : Nat := 6

/-- `struct region` -/
structure Region where
  data : Option Nat
  usedLength : Nat
  allocatedLength : Nat
deriving DecidableEq, Repr

/-- The blocks by address. The next one goes to `next`, and `behind` is what lies behind it. -/
structure RegionHeap where
  block : Nat → Option RegionData
  next : Nat
  behind : Nat → Nat

/-- `SIZE_MAX` -/
def sizeMax : Nat := 4294967295

/-- `CdBadRegion` -/
def cdBadRegion : Region := { data := none, usedLength := sizeMax, allocatedLength := sizeMax }

/-- `CdIsRegionBad` -/
def cdIsRegionBad (rgn : Region) : Bool :=
  rgn.data.isNone && rgn.allocatedLength == sizeMax && rgn.usedLength == sizeMax

/-- `CdEmptyRegion` -/
def cdEmptyRegion : Region := { data := none, usedLength := 0, allocatedLength := 0 }

variable (h : RegionHeap)

/-- What `rgn->data` points to. -/
def RegionHeap.data (rgn : Region) : Option RegionData := rgn.data.bind h.block

/-- `CdIsRegionEmpty` -/
def cdIsRegionEmpty (rgn : Region) : Bool :=
  match h.data rgn with
  | none => true
  | some d => d.numBands == 0

/-- A write to the block at `p`. -/
def RegionHeap.set (p : Nat) (d : RegionData) : RegionHeap :=
  { h with block := Function.update h.block p (some d) }

/-- `AllocHeap`, which succeeds, and a copy of `allocated` bytes of the block `d`. -/
def RegionHeap.allocCopy (allocated : Nat) (d : RegionData) : RegionHeap :=
  { h with
    block := Function.update h.block h.next (some
      { d with
        band := fun i => if sizeofRegionData + i < allocated then d.band i else h.behind i })
    next := h.next + 1 }

/-- `CdCopyRegion` -/
def cdCopyRegion (rgn : Region) : RegionHeap × Region :=
  if cdIsRegionBad rgn then (h, cdBadRegion)
  else
    match h.data rgn with
    | none => (h, cdEmptyRegion)
    | some d =>
      if d.numBands = 0 then (h, cdEmptyRegion)
      else (h.allocCopy rgn.allocatedLength d, { rgn with data := some h.next })

/-- `CdFreeRegion` -/
def cdFreeRegion (rgn : Region) : RegionHeap :=
  if cdIsRegionBad rgn then h
  else
    match rgn.data with
    | none => h
    | some p => { h with block := Function.update h.block p none }

/-! ## Going through the bands -/

/-- The 16 bits of `n` as an `int16_t`. -/
def s16 (n : Nat) : Int := (BitVec.ofNat 16 n).toInt

/-- `(int16_t) n` -/
def toInt16 (n : Int) : Int := (BitVec.ofInt 16 n).toInt

/-- Two bytes at `ptr` as an `int16_t`. -/
def int16At (get : Nat → Nat) (ptr : Nat) : Int := s16 (get ptr + 256 * get (ptr + 1))

/--
What is kept from band to band. The arrays that the first band cannot read are zero at first.
-/
structure Iter where
  ptr : Nat
  prevSmallMode : Nat → Nat
  prevY1 : Int
  prevX0 : Nat → Int
  prevX1 : Nat → Int
  numRepeats : Nat
  used0x7E : Bool

/-- `CreateIterationContext` -/
def createIterationContext : Iter where
  ptr := 0
  prevSmallMode := fun _ => 0
  prevY1 := 0
  prevX0 := fun _ => 0
  prevX1 := fun _ => 0
  numRepeats := 0
  used0x7E := false

/-- What a control byte says: the spans, the rows, where the spans begin and how they are packed. -/
structure BandHeader where
  numSpans : Nat
  y0 : Int
  y1 : Int
  ptr : Nat
  small : Bool
  compactSpans : Bool

/-- The control byte at `ptr` of `get`, and the rows after it. -/
def readHeader (get : Nat → Nat) (ptr : Nat) (prevY1 : Int) : BandHeader :=
  let ctrl := get ptr
  if ctrl / 128 % 2 = 1 then
    if ctrl / 64 % 2 = 1 then
      { numSpans := ctrl % 64 + 64 * get (ptr + 1)
        y0 := int16At get (ptr + 2)
        y1 := int16At get (ptr + 4)
        ptr := ptr + 6
        small := false
        compactSpans := false }
    else
      { numSpans := ctrl % 32
        y0 := int16At get (ptr + 1)
        y1 := toInt16 (int16At get (ptr + 1) + 1)
        ptr := ptr + 3
        small := false
        compactSpans := ctrl / 32 % 2 = 1 }
  else
    { numSpans := ctrl % 16
      y0 := prevY1
      y1 := toInt16 (prevY1 + 1 + (ctrl / 16 % 8 : Nat))
      ptr := ptr + 1
      small := true
      compactSpans := false }

/-- The loop over the spans of a band: `k` of them are left, from number `j` on. -/
def readSpans (get : Nat → Nat) (b : BandHeader) : Nat → Nat → Nat → Nat → Iter →
    List (Int × Int) × Nat × Iter
  | 0, _, _, ptr, it => ([], ptr, it)
  | k + 1, j, top, ptr, it =>
    let (x0, x1, top, ptr) :=
      if b.small then
        (toInt16 (it.prevX0 j + ((get ptr % 16 : Nat) - 8)),
          toInt16 (it.prevX1 j + ((get ptr / 16 % 16 : Nat) - 8)), top, ptr + 1)
      else if b.compactSpans then
        let (top, ptr) := if j = 0 then (get ptr, ptr + 1) else (top, ptr)
        (s16 (get ptr + 256 * top), s16 (get (ptr + 1) + 256 * top), top, ptr + 2)
      else (int16At get ptr, int16At get (ptr + 2), top, ptr + 4)
    let it :=
      if j < 16 then
        { it with prevX0 := Function.update it.prevX0 j x0, prevX1 := Function.update it.prevX1 j x1 }
      else it
    let (rest, last) := readSpans get b k (j + 1) top ptr it
    ((x0, x1) :: rest, last)

/-- A band: its rows and its spans. -/
structure Band where
  y0 : Int
  y1 : Int
  spans : List (Int × Int)
deriving DecidableEq, Repr

/-- The control byte: whether the band repeats the last one in small mode, and how often more. -/
def readControl (band : Nat → Nat) (it : Iter) : Bool × Iter :=
  if it.numRepeats > 0 then (true, { it with numRepeats := it.numRepeats - 1 })
  else if band it.ptr = 0x7F then (true, it)
  else if band it.ptr = 0x7E then
    (true, { it with used0x7E := true, numRepeats := band (it.ptr + 1) + 1 })
  else (false, it)

/-- Where to go on after a band that began at `start`. -/
def leaveBand (inRepeat : Bool) (start ptr : Nat) (it : Iter) : Iter :=
  if inRepeat then
    if it.numRepeats = 0 then
      if it.used0x7E then { it with ptr := start + 2, used0x7E := false }
      else { it with ptr := start + 1 }
    else { it with ptr := start }
  else { it with ptr := ptr }

/-- One round of the loop of `IterateRegionCoroutine`. -/
def nextBand (band : Nat → Nat) (it : Iter) : Band × Iter :=
  let start := it.ptr
  let (inRepeat, it) := readControl band it
  -- a repeated band is read from the copy of the last one
  let get := if inRepeat then it.prevSmallMode else band
  let b := readHeader get (if inRepeat then 0 else start) it.prevY1
  let (spans, ptr, it) := readSpans get b b.numSpans 0 0 b.ptr it
  let it := { it with prevY1 := b.y1 }
  let it :=
    if b.small && !inRepeat then
      { it with
        prevSmallMode := fun i => if i < ptr - start then band (start + i) else it.prevSmallMode i }
    else it
  ({ y0 := b.y0, y1 := b.y1, spans }, leaveBand inRepeat start ptr it)

/-- The first `n` bands. -/
def bands (band : Nat → Nat) : Nat → Iter → List Band
  | 0, _ => []
  | n + 1, it => (nextBand band it).1 :: bands band n (nextBand band it).2

/-- `IterateRegion`: the bands, without the translation. -/
def RegionData.bands (d : RegionData) : List Band :=
  Cd.bands d.band d.numBands createIterationContext

/-- The pixels of the bands. -/
def inBands (l : List Band) (p : Int × Int) : Prop :=
  ∃ b ∈ l, b.y0 ≤ p.2 ∧ p.2 < b.y1 ∧ ∃ s ∈ b.spans, s.1 ≤ p.1 ∧ p.1 < s.2

/-- The pixels of a region, with the translation. -/
def pixels (rgn : Region) : Set (Int × Int) :=
  { p | ∃ d, h.data rgn = some d ∧ inBands d.bands (p.1 - d.transX.toInt, p.2 - d.transY.toInt) }

end Nolrem.Cd
