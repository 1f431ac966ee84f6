import Nolrem.Bitmap.Pages

/-!
# Reads of a bitmap that stay in its file

`VGACreateCompatibleBitmap` of `kernel/CLIPDRAW/driver/vga16/compat_bitmap.c` maps as many bytes as
the header of the file says. Nothing of the rest of the header is compared with that size, so a
file has to be well formed for its reads to stay there.
-/

namespace Nolrem.Bitmap

open Nolrem.Lib

/-! ## The code -/

/-- The size of the file, as its header has it. -/
def headerFileSize (file : Nat → Nat) : Nat := (readU32LE (fileByte file) 2).value

/-- Whether the masks of the pixels are read from the file. -/
def usesMasks (bpp compression : Nat) : Prop :=
  bpp = 16 ∧ compression = compressionBitfields ∨
    bpp = 32 ∧ (compression = compressionBitfields ∨ compression = compressionAlphaBitfields)

/-- The entry of the palette that a pixel names. -/
def pixelIndex (info : BmpInfo) (row : Nat → Nat) (col : Nat) : Nat :=
  if info.bpp = 1 then row (col / 8) >>> (7 - col % 8) % 2
  else if info.bpp = 4 then
    if col % 2 = 1 then row (col / 2) % 16 else row (col / 2) / 16
  else row col

/-- Everything that the header names lies in the file, and every pixel names an entry of the
palette. -/
structure WellFormed (file : Nat → Nat) (info : BmpInfo) : Prop where
  header : 54 ≤ headerFileSize file
  small : info.isRle = false → headerFileSize file ≤ 268435452
  masks : usesMasks (readU16LE (fileByte file) (14 + 14)).value
      (readU32LE (fileByte file) (14 + 16)).value →
    (if 56 ≤ (readU32LE (fileByte file) 14).value then 14 + 40
      else 14 + (readU32LE (fileByte file) 14).value) + 12 ≤ headerFileSize file
  palette : info.bpp ≤ 8 → info.palette + 4 * info.paletteCount ≤ headerFileSize file
  indices : info.bpp ≤ 8 → ∀ row < info.height, ∀ col < info.width,
    pixelIndex info (fun j => (imageRow file info row j).value) col < info.paletteCount
  pixels : info.isRle = false →
    info.pixels + info.height * info.rowStride ≤ headerFileSize file
  stream : info.isRle = true → info.rleData + info.rleLen ≤ headerFileSize file

/-! ## One read -/

section Reads

variable {file : Nat → Nat} {row : Nat → Reads Nat} {n x : Nat}

end Reads

/-! ## `BmpParse` -/

section Parse

variable {file : Nat → Nat} {info : BmpInfo} {n : Nat}

end Parse

/-! ## Rows and pixels -/

section Rows

variable {file : Nat → Nat} {info : BmpInfo} {n : Nat} {c : Cursor}

end Rows

/-! ## Regeneration -/

section Regenerate

variable {file : Nat → Nat} {info : BmpInfo} {n : Nat} {row : Nat → Reads Nat}
variable {targetWidth targetHeight plane fragStart fragEnd regenOffset : Nat}
variable {s : DitherCache × (Nat → Nat)}

variable {reload : Option (List Checkpoint)}

end Regenerate

/-! ## The bitmap -/

section Create

variable {file : Nat → Nat} {info : BmpInfo} {targetW targetH : Int}

end Create

end Nolrem.Bitmap
