import Nolrem.Bitmap.Cursor
import Nolrem.Vga.Dither

/-!
# Bitmaps whose pages are generated

`kernel/CLIPDRAW/driver/vga16/compat_bitmap.c`: every byte range of the four planes is computed from
the source file when it is needed. Numbers are reduced to 32 bits where the code multiplies or adds;
for a product of two `int`s that is exact as long as it has 31 bits.
-/

namespace Nolrem.Bitmap

open Nolrem.Lib Nolrem.Vga

/-! ## Rows and columns -/

/-- `ComputePlaneDimensions`: the stride of a plane, its size and that of all four. -/
def computePlaneDimensions (width height : Nat) : Nat × Nat × Nat :=
  let planeStride := (width + 7) / 8
  let planeSize := planeStride * height % 4294967296
  (planeStride, planeSize, planeSize * 4 % 4294967296)

/-- `SourceCoordForOutput` -/
def sourceCoordForOutput (outCoord srcSize dstSize : Nat) : Nat :=
  outCoord * srcSize % 4294967296 / dstSize

/-- `OutputRowRangeForLogicalRow` -/
def outputRowRangeForLogicalRow (logicalRow srcHeight dstHeight : Nat) : Nat × Nat :=
  let lo := (logicalRow * dstHeight + srcHeight - 1) % 4294967296 / srcHeight
  let hi := ((logicalRow + 1) * dstHeight + srcHeight - 1) % 4294967296 / srcHeight - 1
  (lo, if hi > dstHeight - 1 then dstHeight - 1 else hi)

/-- `RleNativeRowRange` -/
def rleNativeRowRange (outRowLo outRowHi srcHeight dstHeight : Nat) : Nat × Nat :=
  let logicalLo := sourceCoordForOutput outRowLo srcHeight dstHeight
  let logicalHi := sourceCoordForOutput outRowHi srcHeight dstHeight
  (srcHeight - 1 - logicalHi, srcHeight - 1 - logicalLo)

/-- The part of `[start, stop)` that plane number `plane` holds, and where the plane begins. -/
def planeFragment (start stop planeSize plane : Nat) : Nat × Nat × Nat :=
  let planeStart := plane * planeSize % 4294967296
  let planeEnd := (planeStart + planeSize) % 4294967296
  (planeStart, if start > planeStart then start else planeStart,
    if stop < planeEnd then stop else planeEnd)

/-- `FindTouchedOutputRows` -/
def findTouchedOutputRows (rangeStart rangeSize planeStride planeSize targetHeight : Nat) :
    Option (Nat × Nat) :=
  (List.range 4).foldl
    (fun touched plane =>
      let (planeStart, lo, hiExcl) :=
        planeFragment rangeStart ((rangeStart + rangeSize) % 4294967296) planeSize plane
      if hiExcl ≤ lo then touched
      else
        let rowLo := (lo - planeStart) / planeStride
        let rowHi := (hiExcl - 1 - planeStart) / planeStride
        let rowHi := if targetHeight ≤ rowHi then targetHeight - 1 else rowHi
        match touched with
        | none => some (rowLo, rowHi)
        | some (outRowLo, outRowHi) =>
          some (if rowLo < outRowLo then rowLo else outRowLo,
            if rowHi > outRowHi then rowHi else outRowHi))
    none

/-! ## One byte -/

/-- `dither_cache_t` -/
structure DitherCache where
  colour : Nat
  tile : Nat → Nat
  valid : Bool

/-- `DitherIndexFor` -/
def ditherIndexFor (cache : DitherCache) (colour outRow col : Nat) : Nat × DitherCache :=
  let cache :=
    if !cache.valid || colour != cache.colour then
      { colour, tile := getDither colour cache.tile, valid := true }
    else cache
  (cache.tile (outRow % 8 * 8 + col % 8), cache)

/-- One pixel of `BuildPlaneByte`; beyond the last column the loop has stopped. -/
def planePixel (file : Nat → Nat) (info : BmpInfo) (row : Nat → Reads Nat)
    (outRow byteOff plane targetWidth : Nat) (s : Nat × DitherCache) (b : Nat) :
    Reads (Nat × DitherCache) :=
  let col := byteOff * 8 + b
  if targetWidth ≤ col then pure s
  else do
    let srcCol := sourceCoordForOutput col info.width targetWidth
    let colour ← bmpDecodePixel file info row srcCol
    let (index, cache) := ditherIndexFor s.2 colour outRow col
    pure (if index.testBit plane then s.1 ||| 0x80 >>> b else s.1, cache)

/-- `BuildPlaneByte` -/
def buildPlaneByte (file : Nat → Nat) (info : BmpInfo) (row : Nat → Reads Nat)
    (outRow byteOff plane targetWidth : Nat) (cache : DitherCache) : Reads (Nat × DitherCache) :=
  (List.range 8).foldlM (planePixel file info row outRow byteOff plane targetWidth) (0, cache)

/-! ## The reload index -/

/-- The checkpoints of the pages that need `nativeRow` first are taken from the cursor. -/
def saveCheckpoints (pageNativeRowLo : List (Option Nat)) (nativeRow : Nat) (cursor : Cursor)
    (state : List Checkpoint) : List Checkpoint :=
  List.zipWith
    (fun row checkpoint =>
      if row = some nativeRow then bmpRowCursorSaveCheckpoint cursor else checkpoint)
    pageNativeRowLo state

/-- The loop over the native rows in `BuildReloadIndex`. -/
def indexRows (file : Nat → Nat) (info : BmpInfo) (pageNativeRowLo : List (Option Nat)) :
    List Nat → Cursor → List Checkpoint → Reads (List Checkpoint)
  | [], _, state => pure state
  | nativeRow :: rows, cursor, state => do
    let state := saveCheckpoints pageNativeRowLo nativeRow cursor state
    match ← bmpRowCursorNext file info cursor with
    | none => pure state
    | some (_, cursor) => indexRows file info pageNativeRowLo rows cursor state

/-- `BuildReloadIndex`, where every allocation succeeds. -/
def buildReloadIndex (file : Nat → Nat) (info : BmpInfo)
    (planeStride planeSize totalLen targetHeight : Nat) : Reads (Option (List Checkpoint)) :=
  let numPages := (totalLen + 4096 - 1) % 4294967296 / 4096
  if numPages = 0 then pure none
  else do
    let pageNativeRowLo := (List.range numPages).map fun i =>
      (findTouchedOutputRows (i * 4096) 4096 planeStride planeSize targetHeight).map
        fun (outRowLo, outRowHi) =>
          (rleNativeRowRange outRowLo outRowHi info.height targetHeight).1
    let state ← indexRows file info pageNativeRowLo (List.range info.height) bmpRowCursorInit
      (List.replicate numPages {})
    pure (some state)

/-! ## Regeneration -/

/-- `RegenRandomAccessFragment`, one byte; `s` is the cache and the output. -/
def randomAccessByte (file : Nat → Nat) (info : BmpInfo)
    (targetWidth targetHeight planeStride plane planeStart regenOffset : Nat)
    (s : DitherCache × (Nat → Nat)) (abs : Nat) : Reads (DitherCache × (Nat → Nat)) := do
  let offsetInPlane := abs - planeStart
  let outRow := offsetInPlane / planeStride
  let byteOff := offsetInPlane % planeStride
  let logicalRow := sourceCoordForOutput outRow info.height targetHeight
  let nativeRow := if info.topDown then logicalRow else info.height - 1 - logicalRow
  let (byte, cache) ←
    buildPlaneByte file info (pixelRow file info nativeRow) outRow byteOff plane targetWidth s.1
  pure (cache, Function.update s.2 (abs - regenOffset) byte)

/-- `RegenRandomAccessFragment` -/
def regenRandomAccessFragment (file : Nat → Nat) (info : BmpInfo)
    (targetWidth targetHeight planeStride plane planeStart fragStart fragEnd regenOffset : Nat)
    (s : DitherCache × (Nat → Nat)) : Reads (DitherCache × (Nat → Nat)) :=
  (List.range' fragStart (fragEnd - fragStart)).foldlM
    (randomAccessByte file info targetWidth targetHeight planeStride plane planeStart regenOffset)
    s

/-- The checkpoint of the index with the highest row that is not above `nativeLo`. -/
def bestCheckpoint (reload : List Checkpoint) (nativeLo : Nat) : Option Checkpoint :=
  reload.foldl
    (fun best c =>
      if c.nextRow ≤ nativeLo && best.all fun b => c.nextRow > b.nextRow then some c else best)
    none

/-- `RegenRleFragment`, one byte of an output row that begins at `rowStart`. -/
def rleByteOfRow (file : Nat → Nat) (info : BmpInfo) (row : Nat → Reads Nat)
    (targetWidth plane outRow rowStart regenOffset : Nat) (s : DitherCache × (Nat → Nat))
    (abs : Nat) : Reads (DitherCache × (Nat → Nat)) := do
  let (byte, cache) ← buildPlaneByte file info row outRow (abs - rowStart) plane targetWidth s.1
  pure (cache, Function.update s.2 (abs - regenOffset) byte)

/-- `RegenRleFragment`, the bytes of one output row. -/
def rleOutputRow (file : Nat → Nat) (info : BmpInfo) (row : Nat → Reads Nat)
    (targetWidth planeStride plane planeStart fragStart fragEnd regenOffset : Nat)
    (s : DitherCache × (Nat → Nat)) (outRow : Nat) : Reads (DitherCache × (Nat → Nat)) :=
  let rowStart := (planeStart + outRow * planeStride) % 4294967296
  let rowEnd := (rowStart + planeStride) % 4294967296
  let lo := if fragStart > rowStart then fragStart else rowStart
  let hi := if fragEnd < rowEnd then fragEnd else rowEnd
  (List.range' lo (hi - lo)).foldlM
    (rleByteOfRow file info row targetWidth plane outRow rowStart regenOffset) s

/-- `RegenRleFragment`, the output rows that one native row feeds. -/
def rleNativeRow (file : Nat → Nat) (info : BmpInfo) (row : Nat → Reads Nat)
    (targetWidth targetHeight planeStride plane planeStart fragStart fragEnd regenOffset
      outRowLo outRowHi nativeRow : Nat)
    (s : DitherCache × (Nat → Nat)) : Reads (DitherCache × (Nat → Nat)) :=
  let logicalRow := info.height - 1 - nativeRow
  let (rowMin, rowMax) := outputRowRangeForLogicalRow logicalRow info.height targetHeight
  let rowMin := if rowMin < outRowLo then outRowLo else rowMin
  let rowMax := if rowMax > outRowHi then outRowHi else rowMax
  (List.range' rowMin (rowMax + 1 - rowMin)).foldlM
    (rleOutputRow file info row targetWidth planeStride plane planeStart fragStart fragEnd
      regenOffset)
    s

/-- The loop of `RegenRleFragment`; `draw` handles a native row from `nativeLo` on. -/
def walkRows (file : Nat → Nat) (info : BmpInfo) (nativeLo : Nat)
    (draw : (Nat → Reads Nat) → Nat → DitherCache × (Nat → Nat) →
      Reads (DitherCache × (Nat → Nat))) :
    List Nat → Cursor → DitherCache × (Nat → Nat) → Reads (DitherCache × (Nat → Nat))
  | [], _, s => pure s
  | nativeRow :: rows, cursor, s => do
    match ← bmpRowCursorNext file info cursor with
    | none => pure s
    | some (row, cursor) =>
      -- the rows in front of the fragment are only decoded
      let s ← if nativeRow < nativeLo then pure s else draw row nativeRow s
      walkRows file info nativeLo draw rows cursor s

/-- Where `RegenRleFragment` starts: the cursor, and its row. -/
def walkStart (info : BmpInfo) (reload : Option (List Checkpoint)) (nativeLo : Nat) :
    Cursor × Nat :=
  match reload.bind fun state => bestCheckpoint state nativeLo with
  | some checkpoint => (bmpRowCursorResume info checkpoint, checkpoint.nextRow)
  | none => (bmpRowCursorInit, 0)

/-- `RegenRleFragment` -/
def regenRleFragment (file : Nat → Nat) (info : BmpInfo) (reload : Option (List Checkpoint))
    (targetWidth targetHeight planeStride plane planeStart fragStart fragEnd regenOffset : Nat)
    (s : DitherCache × (Nat → Nat)) : Reads (DitherCache × (Nat → Nat)) :=
  let outRowLo := (fragStart - planeStart) / planeStride
  let outRowHi := (fragEnd - 1 - planeStart) / planeStride
  let (nativeLo, nativeHi) := rleNativeRowRange outRowLo outRowHi info.height targetHeight
  let (cursor, startRow) := walkStart info reload nativeLo
  walkRows file info nativeLo
    (fun row nativeRow s =>
      rleNativeRow file info row targetWidth targetHeight planeStride plane planeStart fragStart
        fragEnd regenOffset outRowLo outRowHi nativeRow s)
    (List.range' startRow (nativeHi + 1 - startRow)) cursor s

/-- `RegenerateCore`, the part of the request in one plane. `stack` is what the stack holds where
the cache of a plane is put. -/
def regeneratePlane (file : Nat → Nat) (info : BmpInfo) (reload : Option (List Checkpoint))
    (targetWidth targetHeight regenOffset requestEnd : Nat) (stack : Nat → DitherCache)
    (output : Nat → Nat) (plane : Nat) : Reads (Nat → Nat) :=
  let (planeStride, planeSize, _) := computePlaneDimensions targetWidth targetHeight
  let (planeStart, fragStart, fragEnd) := planeFragment regenOffset requestEnd planeSize plane
  if fragEnd ≤ fragStart then pure output
  else do
    let cache := { stack plane with valid := false }
    let s ←
      if info.isRle then
        regenRleFragment file info reload targetWidth targetHeight planeStride plane planeStart
          fragStart fragEnd regenOffset (cache, output)
      else
        regenRandomAccessFragment file info targetWidth targetHeight planeStride plane planeStart
          fragStart fragEnd regenOffset (cache, output)
    pure s.2

/-- `RegenerateCore` -/
def regenerateCore (file : Nat → Nat) (targetWidth targetHeight : Nat)
    (reload : Option (List Checkpoint)) (regenOffset regenSize : Nat) (stack : Nat → DitherCache)
    (output : Nat → Nat) : Reads (Nat → Nat) := do
  let output := fun i => if i < regenSize then 0 else output i
  if regenSize = 0 ∨ targetWidth = 0 ∨ targetHeight = 0 then pure output
  else
    match ← bmpParse file with
    | .error _ => pure output
    | .ok info =>
      (List.range 4).foldlM
        (regeneratePlane file info reload targetWidth targetHeight regenOffset
          ((regenOffset + regenSize) % 4294967296) stack)
        output

end Nolrem.Bitmap
