import Mathlib.Logic.Function.Basic
import Nolrem.Lib.Reads

/-!
# BMP files

`kernel/CLIPDRAW/bitmap_generic/bmp.c`. Addresses count from the start of the mapped file and wrap
after 32 bits; every function comes with the addresses that it reads.
-/

namespace Nolrem.Bitmap

open Nolrem.Lib

/-! ## The data -/

/-- `BMP_COMPRESSION_RLE8` -/
def compressionRle8 : Nat := 1

/-- `BMP_COMPRESSION_RLE4` -/
def compressionRle4 : Nat := 2

/-- `BMP_COMPRESSION_BITFIELDS` -/
def compressionBitfields : Nat := 3

/-- `BMP_COMPRESSION_ALPHABITFIELDS` -/
def compressionAlphaBitfields : Nat := 6

/-- `bmp_info_t`. The pointers into the file are distances from its start. -/
structure BmpInfo where
  width : Nat
  height : Nat
  topDown : Bool
  bpp : Nat
  compression : Nat
  palette : Nat := 0
  paletteCount : Nat := 0
  rMask : Nat := 0
  gMask : Nat := 0
  bMask : Nat := 0
  pixels : Nat := 0
  rowStride : Nat := 0
  rleData : Nat := 0
  rleLen : Nat := 0
deriving DecidableEq, Repr

def BmpInfo.isRle (info : BmpInfo) : Bool :=
  info.compression == compressionRle8 || info.compression == compressionRle4

/-! ## Reads -/

/-- One byte of the file, at an address of 32 bits. -/
def fileByte (file : Nat → Nat) (x : Nat) : Reads Nat := byteAt file (x % 4294967296)

/-- `ReadU16LE` -/
def readU16LE (row : Nat → Reads Nat) (x : Nat) : Reads Nat := do
  let b0 ← row x
  let b1 ← row (x + 1)
  pure (b0 + 256 * b1)

/-- `ReadU32LE` -/
def readU32LE (row : Nat → Reads Nat) (x : Nat) : Reads Nat := do
  let lo ← readU16LE row x
  let hi ← readU16LE row (x + 2)
  pure (lo + 65536 * hi)

/-! ## Pixels -/

/-- How often the loop that shifts zeros out goes round; a mask has 32 bits. -/
def lowZeros : Nat → Nat → Nat
  | 0, _ => 0
  | k + 1, m => if m % 2 = 1 then 0 else lowZeros k (m / 2) + 1

/-- The loop that counts the ones. -/
def lowOnes : Nat → Nat → Nat
  | 0, _ => 0
  | k + 1, m => if m % 2 = 1 then lowOnes k (m / 2) + 1 else 0

/-- `ExpandComponent` -/
def expandComponent (pixel mask : Nat) : Nat :=
  if mask = 0 then 0
  else
    let shift := lowZeros 32 mask
    let bits := lowOnes 32 (mask >>> shift)
    let val := (pixel &&& mask) >>> shift
    if 8 ≤ bits then val >>> (bits - 8) % 256
    else (val <<< (8 - bits) ||| val >>> (2 * bits - 8)) % 256

/-- `(0xFFu << 24) | (r << 16) | (g << 8) | b` -/
def argb (r g b : Nat) : Nat := 0xFF000000 + r * 65536 + g * 256 + b

/-- The colour of an entry of the palette, or of three bytes of a row: blue first. -/
def readBgr (row : Nat → Reads Nat) (x : Nat) : Reads Nat := do
  let b ← row x
  let g ← row (x + 1)
  let r ← row (x + 2)
  pure (argb r g b)

/-- A pixel whose components are cut out with the masks. -/
def maskedPixel (info : BmpInfo) (px : Nat) : Nat :=
  argb (expandComponent px info.rMask) (expandComponent px info.gMask)
    (expandComponent px info.bMask)

/-- `BmpDecodePixel`; `row` reads a byte of the row. -/
def bmpDecodePixel (file : Nat → Nat) (info : BmpInfo) (row : Nat → Reads Nat) (col : Nat) :
    Reads Nat :=
  if info.bpp = 1 then do
    let byte ← row (col / 8)
    readBgr (fileByte file) (info.palette + 4 * (byte >>> (7 - col % 8) % 2))
  else if info.bpp = 4 then do
    let byte ← row (col / 2)
    readBgr (fileByte file) (info.palette + 4 * (if col % 2 = 1 then byte % 16 else byte / 16))
  else if info.bpp = 8 then do
    let idx ← row col
    readBgr (fileByte file) (info.palette + 4 * idx)
  else if info.bpp = 16 then do
    let px ← readU16LE row (2 * col)
    pure (maskedPixel info px)
  else if info.bpp = 24 then readBgr row (3 * col)
  else do
    let px ← readU32LE row (4 * col)
    pure (maskedPixel info px)

/-! ## The header -/

/-- `(int32_t) n` -/
def toInt32 (n : Nat) : Int := if n < 2147483648 then n else (n : Int) - 4294967296

/-- `BmpParse` for the two run-length formats. -/
def parseRle (width height bpp compression headerSize imageSize coloursUsed fileSize
    pixelDataOffset : Nat) : BmpInfo :=
  { width, height
    topDown := false
    -- the row cursor always gives one byte a pixel
    bpp := 8
    compression
    palette := 14 + headerSize
    paletteCount := if coloursUsed ≠ 0 then coloursUsed else bpp
    rleData := pixelDataOffset
    rleLen :=
      if imageSize ≠ 0 then imageSize
      else if fileSize > pixelDataOffset then fileSize - pixelDataOffset else 0 }

/-- The three masks, behind the header or in it. -/
def readMasks (file : Nat → Nat) (headerSize : Nat) (info : BmpInfo) : Reads BmpInfo := do
  let masks := if 56 ≤ headerSize then 14 + 40 else 14 + headerSize
  let rMask ← readU32LE (fileByte file) masks
  let gMask ← readU32LE (fileByte file) (masks + 4)
  let bMask ← readU32LE (fileByte file) (masks + 8)
  pure { info with rMask, gMask, bMask }

/-- `BmpParse`, the palette or the masks of the other formats. -/
def parseColours (file : Nat → Nat) (headerSize coloursUsed : Nat) (info : BmpInfo) :
    Reads BmpInfo :=
  if info.bpp ≤ 8 then
    pure
      { info with
        palette := 14 + headerSize
        paletteCount := if coloursUsed ≠ 0 then coloursUsed else 1 <<< info.bpp }
  else if info.bpp = 16 then
    if info.compression = compressionBitfields then readMasks file headerSize info
    else pure { info with rMask := 0x7C00, gMask := 0x03E0, bMask := 0x001F }
  else if info.bpp = 32 then
    if info.compression = compressionBitfields ∨ info.compression = compressionAlphaBitfields then
      readMasks file headerSize info
    else pure { info with rMask := 0x00FF0000, gMask := 0x0000FF00, bMask := 0x000000FF }
  else pure info

/-- `ENOTSUP` -/
def enotsup : Nat := 5

/-- `EINVAL` -/
def einval : Nat := 7

/-- `BmpParse`; an error is its number. -/
def bmpParse (file : Nat → Nat) : Reads (Except Nat BmpInfo) := do
  let magic0 ← fileByte file 0
  if magic0 ≠ 66 then pure (.error einval)
  else do
    let magic1 ← fileByte file 1
    if magic1 ≠ 77 then pure (.error einval)
    else do
      let fileSize ← readU32LE (fileByte file) 2
      let pixelDataOffset ← readU32LE (fileByte file) 10
      let headerSize ← readU32LE (fileByte file) 14
      if headerSize < 40 then pure (.error enotsup)
      else do
        let width ← readU32LE (fileByte file) (14 + 4)
        let heightRaw ← readU32LE (fileByte file) (14 + 8)
        let bpp ← readU16LE (fileByte file) (14 + 14)
        let compression ← readU32LE (fileByte file) (14 + 16)
        let imageSize ← readU32LE (fileByte file) (14 + 20)
        let coloursUsed ← readU32LE (fileByte file) (14 + 32)
        if toInt32 width ≤ 0 then pure (.error einval)
        else
          let topDown := decide (toInt32 heightRaw < 0)
          let height := (toInt32 heightRaw).natAbs
          -- the negation of the smallest number is not positive
          if height = 0 ∨ height = 2147483648 then pure (.error einval)
          else if compression = compressionRle8 ∨ compression = compressionRle4 then
            if topDown then pure (.error einval)
            else
              pure (.ok (parseRle width height (if compression = compressionRle8 then 256 else 16)
                compression headerSize imageSize coloursUsed fileSize pixelDataOffset))
          else if bpp ∉ [1, 4, 8, 16, 24, 32] then pure (.error enotsup)
          else do
            let info ← parseColours file headerSize coloursUsed
              { width, height, topDown, bpp, compression }
            pure (.ok
              { info with
                rowStride := (width * bpp + 31) / 32 * 4
                pixels := pixelDataOffset })

/-! ## What is accepted -/

section Colours

variable {file : Nat → Nat} {headerSize coloursUsed : Nat} {info : BmpInfo}

@[simp] theorem parseColours_width :
    (parseColours file headerSize coloursUsed info).value.width = info.width := by
  unfold parseColours
  split_ifs <;> rfl

@[simp] theorem parseColours_height :
    (parseColours file headerSize coloursUsed info).value.height = info.height := by
  unfold parseColours
  split_ifs <;> rfl

@[simp] theorem parseColours_bpp :
    (parseColours file headerSize coloursUsed info).value.bpp = info.bpp := by
  unfold parseColours
  split_ifs <;> rfl

@[simp] theorem parseColours_compression :
    (parseColours file headerSize coloursUsed info).value.compression = info.compression := by
  unfold parseColours
  split_ifs <;> rfl

end Colours

/-- What is known of every file that is accepted. -/
structure Parsed (info : BmpInfo) : Prop where
  width_pos : 0 < info.width
  height_pos : 0 < info.height
  bpp_mem : info.bpp ∈ [1, 4, 8, 16, 24, 32]
  rowStride : info.isRle = false → info.rowStride = (info.width * info.bpp + 31) / 32 * 4
  bottomUp : info.isRle = true → info.topDown = false
  rleBpp : info.isRle = true → info.bpp = 8

theorem ok_of_ite {c : Prop} [Decidable c] {e : Nat} {m : Reads (Except Nat BmpInfo)}
    {info : BmpInfo} (h : (if c then pure (.error e) else m : Reads (Except Nat BmpInfo)).value =
      .ok info) : ¬ c ∧ m.value = .ok info := by
  split_ifs at h with hc
  exact ⟨hc, h⟩

theorem pos_of_toInt32 {n : Nat} (h : ¬ toInt32 n ≤ 0) : 0 < n := by
  refine Nat.pos_of_ne_zero ?_
  rintro rfl
  exact h (by decide)

theorem bmpParse_ok {file : Nat → Nat} {info : BmpInfo}
    (h : (bmpParse file).value = .ok info) : Parsed info := by
  unfold bmpParse at h
  rw [Reads.value_bind] at h
  replace ⟨_, h⟩ := ok_of_ite h
  rw [Reads.value_bind] at h
  replace ⟨_, h⟩ := ok_of_ite h
  iterate 3 rw [Reads.value_bind] at h
  replace ⟨_, h⟩ := ok_of_ite h
  iterate 6 rw [Reads.value_bind] at h
  replace ⟨hwidth, h⟩ := ok_of_ite h
  replace ⟨hheight, h⟩ := ok_of_ite h
  have hwidthPos := pos_of_toInt32 hwidth
  have hheightPos := Nat.pos_of_ne_zero fun h0 => hheight (Or.inl h0)
  by_cases hrle : (readU32LE (fileByte file) (14 + 16)).value = compressionRle8 ∨
      (readU32LE (fileByte file) (14 + 16)).value = compressionRle4
  · rw [if_pos hrle] at h
    replace ⟨_, h⟩ := ok_of_ite h
    obtain rfl := Except.ok.inj h
    have hisRle : (parseRle (readU32LE (fileByte file) (14 + 4)).value
        (toInt32 (readU32LE (fileByte file) (14 + 8)).value).natAbs
        (if (readU32LE (fileByte file) (14 + 16)).value = compressionRle8 then 256 else 16)
        (readU32LE (fileByte file) (14 + 16)).value (readU32LE (fileByte file) 14).value
        (readU32LE (fileByte file) (14 + 20)).value (readU32LE (fileByte file) (14 + 32)).value
        (readU32LE (fileByte file) 2).value (readU32LE (fileByte file) 10).value).isRle = true := by
      simpa [BmpInfo.isRle, parseRle] using hrle
    exact ⟨hwidthPos, hheightPos, by simp [parseRle],
      fun hnot => absurd (hisRle.symm.trans hnot) (by decide), fun _ => rfl, fun _ => rfl⟩
  · rw [if_neg hrle] at h
    replace ⟨hbpp, h⟩ := ok_of_ite h
    rw [Reads.value_bind] at h
    obtain rfl := Except.ok.inj h
    rw [not_not] at hbpp
    have hnot : ∀ compression, compression = (readU32LE (fileByte file) (14 + 16)).value →
        ¬ (compression == compressionRle8 || compression == compressionRle4) = true := by
      rintro _ rfl
      simpa using hrle
    exact ⟨by simpa using hwidthPos, by simpa using hheightPos, by simpa using hbpp,
      fun _ => by simp, fun h => absurd h (hnot _ parseColours_compression),
      fun h => absurd h (hnot _ parseColours_compression)⟩

end Nolrem.Bitmap
