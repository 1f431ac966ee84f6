import Nolrem.Bitmap.Bmp

/-!
# The rows of a BMP file, one after another

`bmp_row_cursor_t` of `kernel/CLIPDRAW/bitmap_generic/bmp.c`: a row of a run-length stream needs all
the rows before it, so the state in front of a row can be saved and a cursor resumed from it.
-/

namespace Nolrem.Bitmap

open Nolrem.Lib

/-! ## The code -/

/-- `bmp_row_checkpoint_t` -/
structure Checkpoint where
  rlePos : Nat := 0
  rleX : Nat := 0
  rleY : Nat := 0
  finished : Bool := false
  nextRow : Nat := 0
deriving DecidableEq, Repr

/-- `bmp_row_cursor_t`. The row buffer has `width` bytes; `rleX` is only compared with `width`. -/
structure Cursor extends Checkpoint where
  rowBuffer : Nat → Nat

section Decode

variable (file : Nat → Nat) (info : BmpInfo)

/-- One byte of the run-length stream. -/
def rleByte (pos : Nat) : Reads Nat := fileByte file (info.rleData + pos)

def BmpInfo.isRle4 : Bool := info.compression == compressionRle4

/-- One pixel, which is left out beyond the row. -/
def putPixel (idx : Nat) (c : Cursor) : Cursor :=
  { c with
    rowBuffer :=
      if c.rleX < info.width then Function.update c.rowBuffer c.rleX idx else c.rowBuffer
    rleX := c.rleX + 1 }

/-- The half of a byte that is pixel number `i`. -/
def nibble (byte i : Nat) : Nat := if i % 2 = 1 then byte % 16 else byte / 16

/-- An encoded run of `count` pixels. -/
def encodedRun (count second : Nat) (c : Cursor) : Cursor :=
  (List.range count).foldl
    (fun c i => putPixel info (if info.isRle4 then nibble second i else second) c) c

/-- The loop of the absolute mode, with `n` pixels to go from number `i` on. -/
def absolutePixels : Nat → Nat → Cursor → Reads Cursor
  | 0, _, c => pure c
  | n + 1, i, c =>
    let byteIndex := c.rlePos + if info.isRle4 then i / 2 else i
    if info.rleLen ≤ byteIndex then pure c
    else do
      let byte ← rleByte file info byteIndex
      absolutePixels n (i + 1) (putPixel info (if info.isRle4 then nibble byte i else byte) c)

/-- Behind `bytesNeeded` bytes of an absolute run, and the byte that pads them. -/
def skipAbsolute (bytesNeeded : Nat) (c : Cursor) : Cursor :=
  let pos := c.rlePos + bytesNeeded
  { c with rlePos := if bytesNeeded % 2 = 1 ∧ pos < info.rleLen then pos + 1 else pos }

def Cursor.finish (c : Cursor) : Cursor := { c with finished := true }

/-- An escape, behind its two bytes. -/
def escape (second : Nat) (c : Cursor) : Reads Cursor :=
  if second = 0 then pure { c with rleX := 0, rleY := c.rleY + 1 }
  else if second = 1 then pure c.finish
  else if second = 2 then
    if info.rleLen < c.rlePos + 2 then pure c.finish
    else do
      let dx ← rleByte file info c.rlePos
      let dy ← rleByte file info (c.rlePos + 1)
      pure { c with rlePos := c.rlePos + 2, rleX := c.rleX + dx, rleY := c.rleY + dy }
  else do
    let c ← absolutePixels file info second 0 c
    pure (skipAbsolute info (if info.isRle4 then (second + 1) / 2 else second) c)

/-- One round of the loop of `BmpRowCursorNextRLE`. -/
def rleToken (c : Cursor) : Reads Cursor :=
  if info.rleLen < c.rlePos + 2 then pure c.finish
  else do
    let count ← rleByte file info c.rlePos
    let second ← rleByte file info (c.rlePos + 1)
    let c := { c with rlePos := c.rlePos + 2 }
    if count = 0 then escape file info second c else pure (encodedRun info count second c)

/-- The condition under which the loop goes on. Each of its breaks makes it false. -/
def decoding (targetRow : Nat) (c : Cursor) : Bool := !c.finished && c.rleY == targetRow

/-- The loop of `BmpRowCursorNextRLE`, for `n` rounds at most. -/
def rleTokens (targetRow : Nat) : Nat → Cursor → Reads Cursor
  | 0, c => pure c
  | n + 1, c =>
    if decoding targetRow c then do
      let c ← rleToken file info c
      rleTokens targetRow n c
    else pure c

/-- The row, or an empty one where the stream has left it out. Every round but the last takes two
bytes of the stream. -/
def decodeRow (c : Cursor) : Reads Cursor :=
  let cleared := { c with rowBuffer := fun _ => 0 }
  if c.finished || c.nextRow < c.rleY then pure cleared
  else rleTokens file info c.nextRow (info.rleLen + 1) cleared

/-- `BmpRowCursorNextRLE` -/
def bmpRowCursorNextRLE (c : Cursor) : Reads Cursor := do
  let c ← decodeRow file info c
  pure { c with nextRow := c.nextRow + 1 }

/-- `BmpRowCursorInit` -/
def bmpRowCursorInit : Cursor := { rowBuffer := fun _ => 0 }

/-- The bytes of a row of an uncompressed file. -/
def pixelRow (row : Nat) (j : Nat) : Reads Nat :=
  fileByte file (info.pixels + row * info.rowStride + j)

/-- `BmpRowCursorNext`: a function that reads the bytes of the row, or `none` behind the last. -/
def bmpRowCursorNext (c : Cursor) : Reads (Option ((Nat → Reads Nat) × Cursor)) :=
  if info.height ≤ c.nextRow then pure none
  else if info.isRle then do
    let c ← bmpRowCursorNextRLE file info c
    pure (some (fun j => pure (c.rowBuffer j), c))
  else pure (some (pixelRow file info c.nextRow, { c with nextRow := c.nextRow + 1 }))

/-- `BmpRowCursorSaveCheckpoint` -/
def bmpRowCursorSaveCheckpoint (c : Cursor) : Checkpoint := c.toCheckpoint

/-- `BmpRowCursorResume` -/
def bmpRowCursorResume (checkpoint : Checkpoint) : Cursor :=
  if info.isRle then { bmpRowCursorInit with toCheckpoint := checkpoint } else bmpRowCursorInit

end Decode

/-! ## What one round does -/

variable {file : Nat → Nat} {info : BmpInfo} {n targetRow : Nat} {c c' : Cursor}

/-- At most `n` pixels were drawn, and nothing else has happened. -/
structure Drawn (n : Nat) (c c' : Cursor) : Prop where
  rlePos : c'.rlePos = c.rlePos
  rleY : c'.rleY = c.rleY
  finished : c'.finished = c.finished
  nextRow : c'.nextRow = c.nextRow
  rleX_le : c'.rleX ≤ c.rleX + n

theorem Drawn.refl (c : Cursor) : Drawn n c c := ⟨rfl, rfl, rfl, rfl, Nat.le_add_right _ _⟩

theorem Drawn.putPixel (info : BmpInfo) (idx : Nat) (h : Drawn n c c') :
    Drawn (n + 1) c (putPixel info idx c') :=
  ⟨h.rlePos, h.rleY, h.finished, h.nextRow, Nat.succ_le_succ h.rleX_le⟩

theorem drawn_encodedRun (count second : Nat) (c : Cursor) :
    Drawn count c (encodedRun info count second c) := by
  unfold encodedRun
  induction count with
  | zero => exact Drawn.refl c
  | succ count ih =>
    rw [List.range_succ, List.foldl_append]
    exact ih.putPixel info _

theorem Drawn.after_putPixel {idx : Nat} (h : Drawn n (Bitmap.putPixel info idx c) c') :
    Drawn (n + 1) c c' := by
  obtain ⟨hpos, hy, hfin, hrow, hx⟩ := h
  refine ⟨hpos, hy, hfin, hrow, ?_⟩
  simp only [Bitmap.putPixel] at hx
  omega

theorem drawn_absolutePixels (n i : Nat) (c : Cursor) :
    Drawn n c (absolutePixels file info n i c).value := by
  induction n generalizing i c with
  | zero => exact Drawn.refl c
  | succ n ih =>
    unfold absolutePixels
    dsimp only
    generalize c.rlePos + (if info.isRle4 then i / 2 else i) = byteIndex
    by_cases hend : info.rleLen ≤ byteIndex
    · rw [if_pos hend]
      exact Drawn.refl c
    · rw [if_neg hend]
      exact (ih (i + 1) _).after_putPixel

/-- A round ends the stream, or takes two bytes or more of it. -/
inductive Round (file : Nat → Nat) (info : BmpInfo) (c c' : Cursor) : Prop
  | ended : c'.finished = true → c'.rleX = c.rleX → c.rlePos ≤ c'.rlePos →
      c'.nextRow = c.nextRow → Round file info c c'
  | token : c.rlePos + 2 ≤ info.rleLen → c.rlePos + 2 ≤ c'.rlePos →
      ((∀ x, file x < 256) → c'.rleX ≤ c.rleX + 255) → c'.nextRow = c.nextRow →
      Round file info c c'

theorem Round.nextRow (h : Round file info c c') : c'.nextRow = c.nextRow := by
  cases h with
  | ended _ _ _ hrow => exact hrow
  | token _ _ _ hrow => exact hrow

theorem le_skipAbsolute (bytesNeeded : Nat) (c : Cursor) :
    c.rlePos ≤ (skipAbsolute info bytesNeeded c).rlePos := by
  unfold skipAbsolute
  dsimp only
  split_ifs <;> omega

theorem rleByte_lt (hfile : ∀ x, file x < 256) (pos : Nat) :
    (rleByte file info pos).value < 256 := hfile _

def Cursor.behindToken (c : Cursor) : Cursor := { c with rlePos := c.rlePos + 2 }

/-- Pixels were drawn behind the two bytes of a token. -/
theorem Drawn.round (h : Drawn n c.behindToken c') (hroom : c.rlePos + 2 ≤ info.rleLen)
    (hn : (∀ x, file x < 256) → n < 256) : Round file info c c' := by
  refine .token hroom (Nat.le_of_eq h.rlePos.symm) (fun hfile => ?_) h.nextRow
  have hx : c'.rleX ≤ c.rleX + n := h.rleX_le
  have hlt := hn hfile
  omega

theorem Round.skipAbsolute (h : Round file info c c') (bytesNeeded : Nat) :
    Round file info c (skipAbsolute info bytesNeeded c') := by
  have hpos : c'.rlePos ≤ (Bitmap.skipAbsolute info bytesNeeded c').rlePos :=
    le_skipAbsolute bytesNeeded c'
  cases h with
  | ended hfin hx hle hrow => exact .ended hfin hx (Nat.le_trans hle hpos) hrow
  | token hroom hle hx hrow => exact .token hroom (Nat.le_trans hle hpos) hx hrow

theorem round_escape {second : Nat} (hsecond : (∀ x, file x < 256) → second < 256)
    (hroom : c.rlePos + 2 ≤ info.rleLen) :
    Round file info c (escape file info second c.behindToken).value := by
  unfold escape
  by_cases hline : second = 0
  · rw [if_pos hline]
    exact .token hroom (Nat.le_refl _) (fun _ => Nat.zero_le _) rfl
  by_cases hbitmap : second = 1
  · rw [if_neg hline, if_pos hbitmap]
    exact .ended rfl rfl (Nat.le_add_right _ _) rfl
  by_cases hdelta : second = 2
  · rw [if_neg hline, if_neg hbitmap, if_pos hdelta]
    split_ifs
    · exact .ended rfl rfl (Nat.le_add_right _ _) rfl
    · refine .token hroom (Nat.le_add_right _ _) (fun hfile => ?_) rfl
      exact Nat.add_le_add_left (Nat.le_of_lt_succ (rleByte_lt hfile _)) _
  · rw [if_neg hline, if_neg hbitmap, if_neg hdelta, Reads.value_bind, Reads.value_pure]
    exact ((drawn_absolutePixels second 0 c.behindToken).round hroom hsecond).skipAbsolute _

theorem round_rleToken (c : Cursor) : Round file info c (rleToken file info c).value := by
  unfold rleToken
  by_cases hroom : info.rleLen < c.rlePos + 2
  · rw [if_pos hroom]
    exact .ended rfl rfl (Nat.le_refl _) rfl
  rw [if_neg hroom, Reads.value_bind, Reads.value_bind]
  by_cases hescape : (rleByte file info c.rlePos).value = 0
  · rw [if_pos hescape]
    exact round_escape (fun hfile => rleByte_lt hfile _) (Nat.le_of_not_lt hroom)
  · rw [if_neg hescape]
    exact (drawn_encodedRun _ _ c.behindToken).round (Nat.le_of_not_lt hroom)
      fun hfile => rleByte_lt hfile _

/-! ## What the loop does -/

theorem rleTokens_nextRow (targetRow n : Nat) (c : Cursor) :
    (rleTokens file info targetRow n c).value.nextRow = c.nextRow := by
  induction n generalizing c with
  | zero => rfl
  | succ n ih =>
    unfold rleTokens
    split_ifs
    · rw [Reads.value_bind, ih, (round_rleToken c).nextRow]
    · rfl

/-- `BmpRowCursorNextRLE` clears the row buffer first. -/
theorem bmpRowCursorNextRLE_congr (h : c.toCheckpoint = c'.toCheckpoint) :
    bmpRowCursorNextRLE file info c = bmpRowCursorNextRLE file info c' := by
  obtain ⟨k, buffer⟩ := c
  obtain ⟨k', buffer'⟩ := c'
  obtain rfl : k = k' := h
  rfl

theorem bmpRowCursorNextRLE_nextRow (c : Cursor) :
    (bmpRowCursorNextRLE file info c).value.nextRow = c.nextRow + 1 := by
  refine congrArg (· + 1) (show (decodeRow file info c).value.nextRow = c.nextRow from ?_)
  unfold decodeRow
  dsimp only
  split_ifs
  · rfl
  · exact rleTokens_nextRow _ _ _

/-- The cursor in front of row `r`, from the start of the stream on. -/
def cursorAt (file : Nat → Nat) (info : BmpInfo) : Nat → Cursor
  | 0 => bmpRowCursorInit
  | r + 1 => (bmpRowCursorNextRLE file info (cursorAt file info r)).value

@[simp] theorem cursorAt_nextRow (r : Nat) : (cursorAt file info r).nextRow = r := by
  induction r with
  | zero => rfl
  | succ r ih => rw [cursorAt, bmpRowCursorNextRLE_nextRow, ih]

end Nolrem.Bitmap
