import Mathlib.Data.List.GetD
import Mathlib.Logic.Function.Basic
import Mathlib.Tactic.Common
import Nolrem.Lib.CInt

/-!
# Rows of compressed bitmaps

`BmpRowCursorNext` of `kernel/CLIPDRAW/bitmap_generic/bmp.c` for the formats RLE4 and RLE8, which
decodes one row at a time, and the image that the whole stream stands for.
-/

namespace Nolrem.Cd

open Nolrem.Lib

/-! ## The code -/

/-- `bmp_row_cursor_t` -/
structure RowCursor where
  rlePos : Nat
  rleX : Int
  rleY : Int
  finished : Bool
  nextRow : Int
  rowBuffer : List Nat

namespace RowCursor

/-- `cursor->row_buffer[cursor->rle_x] = idx`, and the step after it -/
def plot (width : Nat) (idx : Nat) (c : RowCursor) : Option RowCursor := do
  let rowBuffer ←
    if c.rleX ≥ 0 ∧ c.rleX < width then
      if c.rleX.toNat < c.rowBuffer.length then some (c.rowBuffer.set c.rleX.toNat idx) else none
    else some c.rowBuffer
  let rleX ← cInt (c.rleX + 1)
  some { c with
    rowBuffer := rowBuffer
    rleX := rleX }

/-- The loop of an encoded run from the `i`-th pixel on; `count` of them are left. -/
def encodedRun (width : Nat) (isRle4 : Bool) (second : Nat) : Nat → Nat → RowCursor →
    Option RowCursor
  | _, 0, c => some c
  | i, count + 1, c => do
    let idx :=
      if isRle4 then if i % 2 = 1 then second % 16 else second / 16
      else second
    let c ← c.plot width idx
    encodedRun width isRle4 second (i + 1) count c

/-- The loop of absolute mode from the `i`-th pixel on; `n` of them are left. -/
def absoluteRun (data : List Nat) (width : Nat) (isRle4 : Bool) : Nat → Nat → RowCursor →
    Option RowCursor
  | _, 0, c => some c
  | i, n + 1, c =>
    let byteIndex := c.rlePos + if isRle4 then i / 2 else i
    if byteIndex ≥ data.length then some c
    else do
      let byte ← data[byteIndex]?
      let idx :=
        if isRle4 then if i % 2 = 1 then byte % 16 else byte / 16
        else byte
      let c ← c.plot width idx
      absoluteRun data width isRle4 (i + 1) n c

/-- The loop of `BmpRowCursorNextRLE`, `none` if it overflows or is not at an end -/
def rleLoop (data : List Nat) (width : Nat) (isRle4 : Bool) (targetRow : Int) : Nat → RowCursor →
    Option RowCursor
  | 0, _ => none
  | fuel + 1, c =>
    if c.finished = false ∧ c.rleY = targetRow then
      if c.rlePos + 2 > data.length then some { c with finished := true }
      else do
        let count ← data[c.rlePos]?
        let second ← data[c.rlePos + 1]?
        let c := { c with rlePos := c.rlePos + 2 }
        if count = 0 then
          if second = 0 then do
            let rleY ← cInt (c.rleY + 1)
            some { c with
              rleX := 0
              rleY := rleY }
          else if second = 1 then some { c with finished := true }
          else if second = 2 then
            if c.rlePos + 2 > data.length then some { c with finished := true }
            else do
              let dx : Nat ← data[c.rlePos]?
              let dy : Nat ← data[c.rlePos + 1]?
              let rleX ← cInt (c.rleX + dx)
              let rleY ← cInt (c.rleY + dy)
              let c := { c with
                rlePos := c.rlePos + 2
                rleX := rleX
                rleY := rleY }
              if dy > 0 then some c else rleLoop data width isRle4 targetRow fuel c
          else do
            let bytesNeeded := if isRle4 then (second + 1) / 2 else second
            let c ← absoluteRun data width isRle4 0 second c
            let c := { c with rlePos := c.rlePos + bytesNeeded }
            let c :=
              if bytesNeeded % 2 = 1 ∧ c.rlePos < data.length then
                { c with rlePos := c.rlePos + 1 }
              else c
            rleLoop data width isRle4 targetRow fuel c
        else do
          let c ← encodedRun width isRle4 second 0 count c
          rleLoop data width isRle4 targetRow fuel c
    else some c

/-- The `memset` of the row buffer -/
def clearRow (width : Nat) (c : RowCursor) : Option RowCursor :=
  if width ≤ c.rowBuffer.length then
    some { c with rowBuffer := List.replicate width 0 ++ c.rowBuffer.drop width }
  else none

/-- The decoding of the row, unless the stream is at its end or behind the row. -/
def decodeRow (data : List Nat) (width : Nat) (isRle4 : Bool) (fuel : Nat) (c : RowCursor) :
    Option RowCursor :=
  if c.finished = true ∨ c.nextRow < c.rleY then some c
  else c.rleLoop data width isRle4 c.nextRow fuel

/-- `BmpRowCursorNextRLE`: the cursor afterwards has the row in its buffer. -/
def nextRle (data : List Nat) (width : Nat) (isRle4 : Bool) (fuel : Nat) (c : RowCursor) :
    Option RowCursor := do
  let c ← c.clearRow width
  let c ← c.decodeRow data width isRle4 fuel
  let nextRow ← cInt (c.nextRow + 1)
  some { c with nextRow := nextRow }

/-- `BmpRowCursorNext`: the cursor, and the row unless there are none left. -/
def next (data : List Nat) (width : Nat) (height : Int) (isRle4 : Bool) (fuel : Nat)
    (c : RowCursor) : Option (RowCursor × Option (List Nat)) :=
  if c.nextRow ≥ height then some (c, none)
  else do
    let c ← c.nextRle data width isRle4 fuel
    some (c, some c.rowBuffer)

/-- `BmpRowCursorInit`; what is in the row buffer that it allocates is not known. -/
def init (stale : List Nat) : RowCursor := ⟨0, 0, 0, false, 0, stale⟩

/-- What `calls` calls of `BmpRowCursorNext` return. -/
def rows (data : List Nat) (width : Nat) (height : Int) (isRle4 : Bool) (fuel : Nat) :
    Nat → RowCursor → Option (List (Option (List Nat)))
  | 0, _ => some []
  | calls + 1, c => do
    let (c, row) ← c.next data width height isRle4 fuel
    let rest ← rows data width height isRle4 fuel calls c
    some (row :: rest)

end RowCursor

/-! ## The image of a stream -/

/-- What the bytes of a stream stand for. -/
inductive RleToken where
  | pixels (indices : List Nat)
  | endOfLine
  | delta (dx dy : Nat)

/-- The two pixels of a byte of RLE4. -/
def nibbles (byte : Nat) : List Nat := [byte / 16, byte % 16]

/-- The pixels of an encoded run. -/
def runPixels (isRle4 : Bool) (count value : Nat) : List Nat :=
  if isRle4 then ((List.replicate count value).flatMap nibbles).take count
  else List.replicate count value

/-- The bytes that absolute mode has for `n` pixels, without the padding. -/
def literalBytes (isRle4 : Bool) (n : Nat) : Nat := if isRle4 then (n + 1) / 2 else n

/-- The pixels of absolute mode, as far as the stream goes. -/
def literalPixels (isRle4 : Bool) (n : Nat) (bytes : List Nat) : List Nat :=
  if isRle4 then ((bytes.take (literalBytes isRle4 n)).flatMap nibbles).take n else bytes.take n

/-- The tokens up to the end of the bitmap, or to where a token is not complete. -/
def tokens (isRle4 : Bool) : List Nat → List RleToken
  | count :: second :: rest =>
    if count = 0 then
      if second = 0 then .endOfLine :: tokens isRle4 rest
      else if second = 1 then []
      else if second = 2 then
        match rest with
        | dx :: dy :: rest => .delta dx dy :: tokens isRle4 rest
        | _ => []
      else
        let padded := literalBytes isRle4 second + literalBytes isRle4 second % 2
        .pixels (literalPixels isRle4 second rest) :: tokens isRle4 (rest.drop padded)
    else .pixels (runPixels isRle4 count second) :: tokens isRle4 rest
  | _ => []
termination_by bytes => bytes.length
decreasing_by all_goals simp only [List.length_cons, List.length_drop]; omega

/-- The colour index of each point; the first row is the lowest of the image. -/
abbrev Canvas := Nat → Nat → Nat

/-- Pixels side by side. -/
def putPixels (y : Nat) : Nat → List Nat → Canvas → Canvas
  | _, [], canvas => canvas
  | x, idx :: rest, canvas =>
    putPixels y (x + 1) rest (Function.update canvas y (Function.update (canvas y) x idx))

/-- The tokens one after another, from the point (`x`, `y`) on. -/
def paintTokens : List RleToken → Nat → Nat → Canvas → Canvas
  | [], _, _, canvas => canvas
  | .pixels indices :: rest, x, y, canvas =>
    paintTokens rest (x + indices.length) y (putPixels y x indices canvas)
  | .endOfLine :: rest, _, y, canvas => paintTokens rest 0 (y + 1) canvas
  | .delta dx dy :: rest, x, y, canvas => paintTokens rest (x + dx) (y + dy) canvas

/-- The image, on a canvas that is all zero. -/
def rleImage (isRle4 : Bool) (data : List Nat) : Canvas :=
  paintTokens (tokens isRle4 data) 0 0 fun _ _ => 0

/-- A row of the image. -/
def imageRow (canvas : Canvas) (width y : Nat) : List Nat := (List.range width).map (canvas y)

/-! ## Pixels of a token -/

/-- The `i`-th pixel of bytes of either format. -/
def pixelOf (isRle4 : Bool) (i byte : Nat) : Nat :=
  if isRle4 then if i % 2 = 1 then byte % 16 else byte / 16
  else byte

section Pixels

variable {data : List Nat} {width i n : Nat} {isRle4 : Bool}

theorem getElem?_nibbles (bytes : List Nat) (i : Nat) :
    (bytes.flatMap nibbles)[i]? = bytes[i / 2]?.map (pixelOf true i) := by
  induction bytes generalizing i with
  | nil => rfl
  | cons byte bytes ih =>
    rw [List.flatMap_cons]
    match i with
    | 0 => rfl
    | 1 => rfl
    | i + 2 =>
      have hnext : (i + 2) / 2 = i / 2 + 1 := by omega
      have hpixel : pixelOf true (i + 2) = pixelOf true i := by
        unfold pixelOf
        rw [Nat.add_mod_right]
      rw [List.getElem?_append_right (show (nibbles byte).length ≤ i + 2 from Nat.le_add_left 2 i),
        hnext, List.getElem?_cons_succ, hpixel]
      exact ih i

theorem runPixels_eq (isRle4 : Bool) (count value : Nat) :
    runPixels isRle4 count value = (List.range count).map fun i => pixelOf isRle4 i value := by
  refine List.ext_getElem? fun i => ?_
  unfold runPixels
  rw [List.getElem?_map]
  cases isRle4 with
  | false =>
    rw [if_neg (by decide), List.getElem?_replicate]
    split_ifs with hi
    · rw [List.getElem?_range hi]
      rfl
    · rw [List.getElem?_eq_none (by rw [List.length_range]; omega)]
      rfl
  | true =>
    rw [if_pos rfl, List.getElem?_take, getElem?_nibbles, List.getElem?_replicate]
    split_ifs with hi hi'
    · rw [List.getElem?_range hi]
      rfl
    · omega
    · rw [List.getElem?_eq_none (by rw [List.length_range]; omega)]
      rfl

/-- The byte that has the `i`-th pixel. -/
def byteOf (isRle4 : Bool) (i : Nat) : Nat := if isRle4 then i / 2 else i

theorem getElem?_literalPixels (hi : i < n) (bytes : List Nat) :
    (literalPixels isRle4 n bytes)[i]? = bytes[byteOf isRle4 i]?.map (pixelOf isRle4 i) := by
  unfold literalPixels byteOf literalBytes
  cases isRle4 with
  | false =>
    rw [if_neg (by decide), if_neg (by decide), List.getElem?_take, if_pos hi]
    exact Option.map_id'.symm
  | true =>
    rw [if_pos rfl, if_pos rfl, List.getElem?_take, if_pos hi, getElem?_nibbles,
      List.getElem?_take, if_pos (by omega), if_pos rfl]

theorem length_literalPixels (isRle4 : Bool) (n : Nat) (bytes : List Nat) :
    (literalPixels isRle4 n bytes).length ≤ n := by
  unfold literalPixels
  split_ifs
  · exact List.length_take_le _ _
  · exact List.length_take_le _ _

/-- The pixels from the `i`-th on begin with it, if the stream has its byte. -/
theorem drop_literalPixels (hi : i < n) (bytes : List Nat) :
    (literalPixels isRle4 n bytes).drop i =
      match bytes[byteOf isRle4 i]? with
      | some byte => pixelOf isRle4 i byte :: (literalPixels isRle4 n bytes).drop (i + 1)
      | none => [] := by
  have hget : (literalPixels isRle4 n bytes)[i]? = bytes[byteOf isRle4 i]?.map (pixelOf isRle4 i) :=
    getElem?_literalPixels hi bytes
  cases hbyte : bytes[byteOf isRle4 i]? with
  | none =>
    rw [hbyte] at hget
    exact List.drop_eq_nil_of_le (List.getElem?_eq_none_iff.mp hget)
  | some byte =>
    rw [hbyte] at hget
    obtain ⟨hlt, heq⟩ := List.getElem?_eq_some_iff.mp hget
    rw [List.drop_eq_getElem_cons hlt, heq]

/-! ## The row buffer -/

/-- Pixels side by side in the buffer; those behind its end are left out. -/
def setPixels : Nat → List Nat → List Nat → List Nat
  | _, [], buffer => buffer
  | x, idx :: rest, buffer => setPixels (x + 1) rest (buffer.set x idx)

/-- The cursor after some pixels. -/
def RowCursor.plotted (c : RowCursor) (indices : List Nat) : RowCursor :=
  { c with
    rowBuffer := setPixels c.rleX.toNat indices c.rowBuffer
    rleX := c.rleX + indices.length }

variable {c : RowCursor}

theorem RowCursor.plotted_cons (c : RowCursor) (h : 0 ≤ c.rleX) (idx : Nat) (rest : List Nat) :
    c.plotted (idx :: rest) = (c.plotted [idx]).plotted rest := by
  have hx : (c.rleX + ([idx] : List Nat).length).toNat = c.rleX.toNat + 1 := by
    rw [List.length_singleton]
    omega
  unfold RowCursor.plotted
  rw [RowCursor.mk.injEq]
  dsimp only
  refine ⟨rfl, ?_, rfl, rfl, rfl, ?_⟩
  · rw [List.length_cons, List.length_singleton]
    omega
  · rw [hx]
    rfl

theorem RowCursor.plot_eq (hlen : c.rowBuffer.length = width) (h : 0 ≤ c.rleX)
    (hfits : c.rleX + 1 ≤ 2147483647) (idx : Nat) : c.plot width idx = some (c.plotted [idx]) := by
  unfold RowCursor.plot
  rw [cInt_of_fits ⟨by omega, hfits⟩]
  split_ifs with hx hlt
  · rfl
  · omega
  · have hset : c.rowBuffer.set c.rleX.toNat idx = c.rowBuffer :=
      List.set_eq_of_length_le (by omega)
    show some _ = some { c with
      rowBuffer := c.rowBuffer.set c.rleX.toNat idx
      rleX := c.rleX + 1 }
    rw [hset]

theorem RowCursor.length_plotted (c : RowCursor) (indices : List Nat) :
    (c.plotted indices).rowBuffer.length = c.rowBuffer.length := by
  have hset (x : Nat) (buffer : List Nat) :
      (setPixels x indices buffer).length = buffer.length := by
    induction indices generalizing x buffer with
    | nil => rfl
    | cons idx rest ih => rw [setPixels, ih, List.length_set]
  exact hset _ _

theorem encodedRun_eq (hlen : c.rowBuffer.length = width) (h : 0 ≤ c.rleX) {count : Nat}
    (hfits : c.rleX + count ≤ 2147483647) (second i : Nat) :
    c.encodedRun width isRle4 second i count =
      some (c.plotted ((List.range' i count).map fun i => pixelOf isRle4 i second)) := by
  induction count generalizing i c with
  | zero => exact congrArg some (by simp [RowCursor.plotted, setPixels])
  | succ count ih =>
    rw [RowCursor.encodedRun, RowCursor.plot_eq hlen h (by omega), Option.bind_eq_bind,
      Option.bind_some, ih ((c.length_plotted _).trans hlen) (by
        show 0 ≤ c.rleX + 1
        omega) (by
        show c.rleX + 1 + count ≤ _
        omega), List.range'_succ, List.map_cons]
    exact congrArg some (c.plotted_cons h _ _).symm

theorem absoluteRun_eq (hlen : c.rowBuffer.length = width) (h : 0 ≤ c.rleX) {n : Nat}
    (hfits : c.rleX + n ≤ 2147483647) (i : Nat) :
    c.absoluteRun data width isRle4 i n = some (c.plotted
      ((literalPixels isRle4 (i + n) (data.drop c.rlePos)).drop i)) := by
  induction n generalizing i c with
  | zero =>
    have hnil : (literalPixels isRle4 (i + 0) (data.drop c.rlePos)).drop i = [] :=
      List.drop_eq_nil_of_le (length_literalPixels isRle4 (i + 0) _)
    rw [hnil]
    exact congrArg some (by simp [RowCursor.plotted, setPixels])
  | succ n ih =>
    rw [drop_literalPixels (by omega), List.getElem?_drop]
    unfold RowCursor.absoluteRun
    show (if c.rlePos + byteOf isRle4 i ≥ data.length then _ else _) = _
    by_cases hbyte : c.rlePos + byteOf isRle4 i ≥ data.length
    · rw [if_pos hbyte, List.getElem?_eq_none hbyte]
      exact congrArg some (by simp [RowCursor.plotted, setPixels])
    · have hget : data[c.rlePos + byteOf isRle4 i]? = some (data[c.rlePos + byteOf isRle4 i]) :=
        List.getElem?_eq_getElem (Nat.not_le.mp hbyte)
      rw [if_neg hbyte]
      simp only [hget]
      show (data[c.rlePos + byteOf isRle4 i]?).bind _ = _
      rw [hget, Option.bind_some]
      generalize data[c.rlePos + byteOf isRle4 i] = byte
      rw [RowCursor.plot_eq hlen h (by omega), Option.bind_eq_bind, Option.bind_some,
        ih ((c.length_plotted _).trans hlen) (by
          show 0 ≤ c.rleX + 1
          omega) (by
          show c.rleX + 1 + n ≤ _
          omega), show i + 1 + n = i + (n + 1) by omega]
      exact congrArg some (c.plotted_cons h _ _).symm

/-! ## The canvas -/

/-- The buffer has a row of a canvas, and so it has after some pixels. -/
theorem setPixels_imageRow (canvas : Canvas) (width x y : Nat) (indices : List Nat) :
    setPixels x indices (imageRow canvas width y) =
      imageRow (putPixels y x indices canvas) width y := by
  induction indices generalizing x canvas with
  | nil => rfl
  | cons idx rest ih =>
    have hset : (imageRow canvas width y).set x idx =
        imageRow (Function.update canvas y (Function.update (canvas y) x idx)) width y := by
      unfold imageRow
      refine List.ext_getElem (by simp) fun i h1 h2 => ?_
      rw [List.getElem_set, List.getElem_map, List.getElem_map, List.getElem_range,
        Function.update_self]
      split_ifs with hi
      · rw [hi, Function.update_self]
      · rw [Function.update_of_ne (Ne.symm hi)]
    rw [setPixels, hset, ih, putPixels]

theorem putPixels_of_ne {x y r : Nat} (h : r ≠ y) (indices : List Nat) (canvas : Canvas) :
    putPixels y x indices canvas r = canvas r := by
  induction indices generalizing x canvas with
  | nil => rfl
  | cons idx rest ih => rw [putPixels, ih, Function.update_of_ne h]

theorem putPixels_congr {x y r : Nat} {canvas canvas' : Canvas} (h : canvas r = canvas' r)
    (indices : List Nat) : putPixels y x indices canvas r = putPixels y x indices canvas' r := by
  induction indices generalizing x canvas canvas' with
  | nil => exact h
  | cons idx rest ih =>
    refine ih ?_
    by_cases hr : r = y
    · subst hr
      rw [Function.update_self, Function.update_self, h]
    · rw [Function.update_of_ne hr, Function.update_of_ne hr, h]

/-- The tokens do not go back to a row. -/
theorem paintTokens_below {x y r : Nat} (h : r < y) (l : List RleToken) (canvas : Canvas) :
    paintTokens l x y canvas r = canvas r := by
  induction l generalizing x y canvas with
  | nil => rfl
  | cons token l ih =>
    cases token with
    | pixels indices => exact (ih h _).trans (putPixels_of_ne (Nat.ne_of_lt h) _ _)
    | endOfLine => exact ih (Nat.lt_succ_of_lt h) _
    | delta dx dy => exact ih (Nat.lt_add_right dy h) _

/-- What is in a row depends on what was in it, and not on the other rows. -/
theorem paintTokens_congr {x y r : Nat} {canvas canvas' : Canvas} (h : canvas r = canvas' r)
    (l : List RleToken) : paintTokens l x y canvas r = paintTokens l x y canvas' r := by
  induction l generalizing x y canvas canvas' with
  | nil => exact h
  | cons token l ih =>
    cases token with
    | pixels indices => exact ih (putPixels_congr h indices)
    | endOfLine => exact ih h
    | delta dx dy => exact ih h

end Pixels

/-! ## The loop -/

/-- The position that the cursor has in the stream bounds where it is in the image. -/
structure RowCursor.Bounded (c : RowCursor) (data : List Nat) : Prop where
  pos : c.rlePos ≤ data.length + 256
  x_nonneg : 0 ≤ c.rleX
  x_le : 2 * c.rleX ≤ 255 * c.rlePos
  y_nonneg : 0 ≤ c.rleY
  y_le : 2 * c.rleY ≤ 255 * c.rlePos

/-- The tokens that are left. -/
def RowCursor.left (c : RowCursor) (isRle4 : Bool) (data : List Nat) : List RleToken :=
  if c.finished then [] else tokens isRle4 (data.drop c.rlePos)

/-- What the rest of the stream makes of a canvas. -/
def RowCursor.paint (c : RowCursor) (isRle4 : Bool) (data : List Nat) (canvas : Canvas) : Canvas :=
  paintTokens (c.left isRle4 data) c.rleX.toNat c.rleY.toNat canvas

/--
What the loop makes of a cursor at row `y` whose buffer has the row of `canvas`: the buffer has the
row as the rest of the stream leaves it, and the stream goes on with the rows behind it.
-/
structure RowDone (data : List Nat) (width : Nat) (isRle4 : Bool) (y : Nat) (canvas : Canvas)
    (c c' : RowCursor) : Prop where
  bounded : c'.Bounded data
  nextRow : c'.nextRow = c.nextRow
  buffer : c'.rowBuffer = imageRow (c.paint isRle4 data canvas) width y
  behind : c'.finished = true ∨ y < c'.rleY
  paint : ∀ r, y < r → c.paint isRle4 data canvas r = c'.paint isRle4 data canvas r

/-- The cursor at another place of the stream and of the image. -/
def RowCursor.moved (c : RowCursor) (pos : Nat) (x y : Int) : RowCursor :=
  { c with
    rlePos := pos
    rleX := x
    rleY := y }

section Loop

variable {data : List Nat} {width y : Nat} {isRle4 : Bool} {canvas : Canvas} {c : RowCursor}

theorem RowCursor.left_of_finished (h : c.finished = true) : c.left isRle4 data = [] := if_pos h

theorem tokens_short {bytes : List Nat} (h : bytes.length < 2) : tokens isRle4 bytes = [] := by
  match bytes, h with
  | [], _ => rw [tokens]; simp
  | [_], _ => rw [tokens]; simp

/-- Two bytes of the stream. -/
theorem drop_two {pos : Nat} (h : pos + 2 ≤ data.length) : ∃ first second,
    data[pos]? = some first ∧ data[pos + 1]? = some second ∧
      data.drop pos = first :: second :: data.drop (pos + 2) := by
  refine ⟨data[pos], data[pos + 1], List.getElem?_eq_getElem _, List.getElem?_eq_getElem _, ?_⟩
  rw [List.drop_eq_getElem_cons (by omega), List.drop_eq_getElem_cons (by omega)]

/-- The stream ends in this row, if there are no more tokens. -/
theorem rowDone_finish (hb : c.Bounded data) (hbuffer : c.rowBuffer = imageRow canvas width y)
    {pos : Nat} (hpos : pos ≤ data.length + 256) (hle : c.rlePos ≤ pos)
    (hleft : c.left isRle4 data = []) :
    RowDone data width isRle4 y canvas c { c with
      rlePos := pos
      finished := true } := by
  have hpaint : c.paint isRle4 data canvas = canvas := by
    unfold RowCursor.paint
    rw [hleft]
    rfl
  refine ⟨⟨hpos, hb.x_nonneg, ?_, hb.y_nonneg, ?_⟩, rfl, by rw [hpaint, hbuffer], Or.inl rfl,
    fun r _ => by rw [hpaint]; rfl⟩
  · have := hb.x_le
    show 2 * c.rleX ≤ 255 * (pos : Int)
    omega
  · have := hb.y_le
    show 2 * c.rleY ≤ 255 * (pos : Int)
    omega

/-- A token that stays in the row. -/
theorem RowDone.of_step {c1 c' : RowCursor} {canvas1 : Canvas}
    (h : RowDone data width isRle4 y canvas1 c1 c')
    (hpaint : c.paint isRle4 data canvas = c1.paint isRle4 data canvas1)
    (hother : ∀ r, y < r → canvas1 r = canvas r) (hnext : c1.nextRow = c.nextRow) :
    RowDone data width isRle4 y canvas c c' :=
  ⟨h.bounded, h.nextRow.trans hnext, by rw [hpaint]; exact h.buffer, h.behind, fun r hr => by
    rw [hpaint, h.paint r hr]
    exact paintTokens_congr (hother r hr) _⟩

theorem imageRow_congr {canvas canvas' : Canvas} (h : canvas y = canvas' y) :
    imageRow canvas width y = imageRow canvas' width y := by
  unfold imageRow
  rw [h]

theorem tokens_endOfLine (rest : List Nat) :
    tokens isRle4 (0 :: 0 :: rest) = .endOfLine :: tokens isRle4 rest := by
  rw [tokens.eq_def]
  rfl

theorem tokens_endOfBitmap (rest : List Nat) : tokens isRle4 (0 :: 1 :: rest) = [] := by
  rw [tokens.eq_def]
  rfl

theorem tokens_delta (dx dy : Nat) (rest : List Nat) :
    tokens isRle4 (0 :: 2 :: dx :: dy :: rest) = .delta dx dy :: tokens isRle4 rest := by
  rw [tokens.eq_def]
  rfl

theorem tokens_delta_short {rest : List Nat} (h : rest.length < 2) :
    tokens isRle4 (0 :: 2 :: rest) = [] := by
  match rest, h with
  | [], _ => rw [tokens.eq_def]; rfl
  | [_], _ => rw [tokens.eq_def]; rfl

theorem tokens_literal {second : Nat} (h : 3 ≤ second) (rest : List Nat) :
    tokens isRle4 (0 :: second :: rest) = .pixels (literalPixels isRle4 second rest) ::
      tokens isRle4 (rest.drop (literalBytes isRle4 second + literalBytes isRle4 second % 2)) := by
  rw [tokens.eq_def]
  dsimp only
  rw [if_pos rfl, if_neg (by omega), if_neg (by omega), if_neg (by omega)]

theorem tokens_run {count : Nat} (h : count ≠ 0) (second : Nat) (rest : List Nat) :
    tokens isRle4 (count :: second :: rest) =
      .pixels (runPixels isRle4 count second) :: tokens isRle4 rest := by
  rw [tokens.eq_def]
  dsimp only
  rw [if_neg h]

/-- A cursor that is not finished goes on with the token at its position. -/
theorem RowCursor.paint_of_tokens (hfin : c.finished = false) {token : RleToken}
    {rest : List RleToken} (h : tokens isRle4 (data.drop c.rlePos) = token :: rest) :
    c.paint isRle4 data canvas = paintTokens (token :: rest) c.rleX.toNat c.rleY.toNat canvas := by
  unfold RowCursor.paint RowCursor.left
  rw [hfin, h]
  rfl

theorem RowCursor.paint_moved (hfin : c.finished = false) (pos : Nat) (x y : Int) :
    (c.moved pos x y).paint isRle4 data canvas =
      paintTokens (tokens isRle4 (data.drop pos)) x.toNat y.toNat canvas := by
  unfold RowCursor.paint RowCursor.left RowCursor.moved
  dsimp only
  rw [hfin]
  rfl

/-- Pixels of a token in the row, up to `pos` in the stream. -/
theorem rowDone_pixels {c' : RowCursor} (hb : c.Bounded data) (hy : c.rleY = y)
    (hfin : c.finished = false) {indices : List Nat} {pos : Nat} {rest : List RleToken}
    (htokens : tokens isRle4 (data.drop c.rlePos) = .pixels indices :: rest)
    (hrest : tokens isRle4 (data.drop pos) = rest)
    (h : RowDone data width isRle4 y (putPixels y c.rleX.toNat indices canvas)
      ((c.plotted indices).moved pos (c.plotted indices).rleX c.rleY) c') :
    RowDone data width isRle4 y canvas c c' := by
  have hx0 := hb.x_nonneg
  have hother (r : Nat) (hr : y < r) : putPixels y c.rleX.toNat indices canvas r = canvas r :=
    putPixels_of_ne (Nat.ne_of_gt hr) _ _
  have hx : (c.rleX + indices.length).toNat = c.rleX.toNat + indices.length := by omega
  refine h.of_step ?_ hother rfl
  rw [RowCursor.paint_of_tokens hfin htokens,
    RowCursor.paint_moved (show (c.plotted indices).finished = false from hfin), hrest]
  show _ = paintTokens rest (c.rleX + indices.length).toNat c.rleY.toNat _
  rw [hx, paintTokens, show c.rleY.toNat = y by omega]

/-- The cursor has gone on to a row behind this one. -/
theorem rowDone_moved (hbuffer : c.rowBuffer = imageRow canvas width y) (hfin : c.finished = false)
    {pos : Nat} {x' y' : Int} (hb : (c.moved pos x' y').Bounded data) (hlt : (y : Int) < y')
    (hpaint : c.paint isRle4 data canvas = (c.moved pos x' y').paint isRle4 data canvas) :
    RowDone data width isRle4 y canvas c (c.moved pos x' y') := by
  refine ⟨hb, rfl, ?_, Or.inr hlt, fun r _ => by rw [hpaint]⟩
  rw [hpaint, RowCursor.paint_moved hfin]
  exact hbuffer.trans (imageRow_congr (paintTokens_below (by omega) _ _).symm)

theorem paint_endOfLine (hb : c.Bounded data) (hfin : c.finished = false)
    (hdrop : data.drop c.rlePos = 0 :: 0 :: data.drop (c.rlePos + 2)) :
    c.paint isRle4 data canvas =
      (c.moved (c.rlePos + 2) 0 (c.rleY + 1)).paint isRle4 data canvas := by
  have hy0 := hb.y_nonneg
  rw [RowCursor.paint_moved hfin,
    RowCursor.paint_of_tokens hfin (by rw [hdrop, tokens_endOfLine]),
    show (c.rleY + 1).toNat = c.rleY.toNat + 1 by omega]
  rfl

theorem paint_delta (hb : c.Bounded data) (hfin : c.finished = false) {dx dy : Nat}
    (hdrop : data.drop c.rlePos = 0 :: 2 :: dx :: dy :: data.drop (c.rlePos + 2 + 2)) :
    c.paint isRle4 data canvas =
      (c.moved (c.rlePos + 2 + 2) (c.rleX + dx) (c.rleY + dy)).paint isRle4 data canvas := by
  have hx0 := hb.x_nonneg
  have hy0 := hb.y_nonneg
  rw [RowCursor.paint_moved hfin, RowCursor.paint_of_tokens hfin (by rw [hdrop, tokens_delta]),
    show (c.rleX + dx).toNat = c.rleX.toNat + dx by omega,
    show (c.rleY + dy).toNat = c.rleY.toNat + dy by omega]
  rfl

/-- There is no padding where the stream ends. -/
theorem drop_padded (data : List Nat) (pos k : Nat) :
    data.drop (if k % 2 = 1 ∧ pos + k < data.length then pos + k + 1 else pos + k) =
      data.drop (pos + (k + k % 2)) := by
  split_ifs with h
  · rw [h.1, Nat.add_assoc]
  · by_cases hodd : k % 2 = 1
    · rw [List.drop_eq_nil_of_le (by omega), List.drop_eq_nil_of_le (by omega)]
    · rw [show k + k % 2 = k by omega]

/-- With so much fuel the loop gets to the end of its row. -/
def LoopEnds (data : List Nat) (width : Nat) (isRle4 : Bool) (y fuel : Nat) : Prop :=
  ∀ {c : RowCursor} {canvas : Canvas}, c.Bounded data → c.rleY = y →
    c.rowBuffer = imageRow canvas width y → 0 < fuel → data.length < c.rlePos + fuel →
    ∃ c', c.rleLoop data width isRle4 y fuel = some c' ∧ RowDone data width isRle4 y canvas c c'

namespace LoopEnds

variable {fuel : Nat} (ih : LoopEnds data width isRle4 y fuel) (hb : c.Bounded data)
  (hy : c.rleY = y) (hbuffer : c.rowBuffer = imageRow canvas width y) (hfin : c.finished = false)
  (htwo : c.rlePos + 2 ≤ data.length) (hfuel : data.length < c.rlePos + (fuel + 1))
include ih hb hy hbuffer hfin htwo hfuel

/-- The loop goes on behind the pixels of a token. -/
theorem pixels {indices : List Nat} {pos : Nat} {rest : List RleToken} (hle : c.rlePos + 2 ≤ pos)
    (hpos : pos ≤ data.length + 256) (hsmall : indices.length ≤ 255)
    (htokens : tokens isRle4 (data.drop c.rlePos) = .pixels indices :: rest)
    (hrest : tokens isRle4 (data.drop pos) = rest) :
    ∃ c', RowCursor.rleLoop data width isRle4 y fuel
        ((c.plotted indices).moved pos (c.plotted indices).rleX c.rleY) = some c' ∧
      RowDone data width isRle4 y canvas c c' := by
  obtain ⟨hp, hx0, hx, hy0, hyle⟩ := id hb
  have hb' : ((c.plotted indices).moved pos (c.plotted indices).rleX c.rleY).Bounded data := by
    refine ⟨hpos, ?_, ?_, hy0, ?_⟩
    · show 0 ≤ c.rleX + indices.length
      omega
    · show 2 * (c.rleX + indices.length) ≤ 255 * pos
      omega
    · show 2 * c.rleY ≤ 255 * pos
      omega
  have hbuffer' : setPixels c.rleX.toNat indices c.rowBuffer =
      imageRow (putPixels y c.rleX.toNat indices canvas) width y := by
    rw [hbuffer, setPixels_imageRow]
  obtain ⟨c', hloop, hdone⟩ := ih hb' hy hbuffer' (by omega)
    (show data.length < pos + fuel by omega)
  exact ⟨c', hloop, rowDone_pixels hb hy hfin htokens hrest hdone⟩

/-- A run of pixels that are encoded. -/
theorem run (hlen : data.length ≤ 8388608) {count second : Nat} (hzero : count ≠ 0)
    (hcount : count < 256)
    (hdrop : data.drop c.rlePos = count :: second :: data.drop (c.rlePos + 2)) :
    ∃ c', ((c.moved (c.rlePos + 2) c.rleX c.rleY).encodedRun width isRle4 second 0 count).bind
        (RowCursor.rleLoop data width isRle4 y fuel) = some c' ∧
      RowDone data width isRle4 y canvas c c' := by
  have hwidth : c.rowBuffer.length = width := by
    rw [hbuffer]
    simp [imageRow]
  have hx := hb.x_le
  have hrun := @encodedRun_eq width isRle4 (c.moved (c.rlePos + 2) c.rleX c.rleY) hwidth
    hb.x_nonneg count (show c.rleX + count ≤ _ by omega) second 0
  rw [← List.range_eq_range', ← runPixels_eq] at hrun
  have hlength : (runPixels isRle4 count second).length = count := by
    rw [runPixels_eq, List.length_map, List.length_range]
  have htokens : tokens isRle4 (data.drop c.rlePos) =
      .pixels (runPixels isRle4 count second) :: tokens isRle4 (data.drop (c.rlePos + 2)) := by
    rw [hdrop, tokens_run hzero]
  rw [hrun, Option.bind_some]
  obtain ⟨c', hloop, hdone⟩ := ih.pixels hb hy hbuffer hfin htwo hfuel
    (Nat.le_refl (c.rlePos + 2)) (by omega) (by omega) htokens rfl
  exact ⟨c', hloop, hdone⟩

/-- A run of pixels that stand in the stream, and the padding behind them. -/
theorem literal (hlen : data.length ≤ 8388608) {second : Nat} (hthree : 3 ≤ second)
    (hsecond : second < 256)
    (hdrop : data.drop c.rlePos = 0 :: second :: data.drop (c.rlePos + 2)) :
    ∃ c', ((c.moved (c.rlePos + 2) c.rleX c.rleY).absoluteRun data width isRle4 0 second).bind
        (fun c => RowCursor.rleLoop data width isRle4 y fuel
          (if literalBytes isRle4 second % 2 = 1 ∧
              c.rlePos + literalBytes isRle4 second < data.length then
            { c with rlePos := c.rlePos + literalBytes isRle4 second + 1 }
          else { c with rlePos := c.rlePos + literalBytes isRle4 second })) = some c' ∧
      RowDone data width isRle4 y canvas c c' := by
  have hwidth : c.rowBuffer.length = width := by
    rw [hbuffer]
    simp [imageRow]
  have hx := hb.x_le
  have hlit := @absoluteRun_eq data width isRle4 (c.moved (c.rlePos + 2) c.rleX c.rleY) hwidth
    hb.x_nonneg second (show c.rleX + second ≤ _ by omega) 0
  rw [List.drop_zero, Nat.zero_add] at hlit
  have hneeded : literalBytes isRle4 second ≤ second := by
    unfold literalBytes
    split_ifs <;> omega
  have htokens : tokens isRle4 (data.drop c.rlePos) =
      .pixels (literalPixels isRle4 second (data.drop (c.rlePos + 2))) ::
        tokens isRle4 ((data.drop (c.rlePos + 2)).drop
          (literalBytes isRle4 second + literalBytes isRle4 second % 2)) := by
    rw [hdrop, tokens_literal hthree]
  have hsmall := length_literalPixels isRle4 second (data.drop (c.rlePos + 2))
  rw [List.drop_drop, ← drop_padded] at htokens
  rw [hlit, Option.bind_some]
  obtain ⟨c', hloop, hdone⟩ := ih.pixels hb hy hbuffer hfin htwo hfuel
    (by split_ifs <;> omega) (by split_ifs <;> omega) (by omega) htokens rfl
  refine ⟨c', ?_, hdone⟩
  rw [← hloop]
  congr 1
  by_cases hodd : literalBytes isRle4 second % 2 = 1 ∧
      c.rlePos + 2 + literalBytes isRle4 second < data.length
  · rw [if_pos hodd]
    exact if_pos hodd
  · rw [if_neg hodd]
    exact if_neg hodd

omit htwo in
/-- A delta, which ends the row if it goes down. -/
theorem delta (hlen : data.length ≤ 8388608) {dx dy : Nat} (hdx : dx < 256) (hdy : dy < 256)
    (hfour : c.rlePos + 2 + 2 ≤ data.length)
    (hdrop : data.drop c.rlePos = 0 :: 2 :: dx :: dy :: data.drop (c.rlePos + 2 + 2)) :
    ∃ c', (if dy > 0 then some (c.moved (c.rlePos + 2 + 2) (c.rleX + dx) (c.rleY + dy))
        else (c.moved (c.rlePos + 2 + 2) (c.rleX + dx) (c.rleY + dy)).rleLoop data width isRle4 y
          fuel) = some c' ∧
      RowDone data width isRle4 y canvas c c' := by
  obtain ⟨hp, hx0, hx, hy0, hyle⟩ := id hb
  have hpaint : c.paint isRle4 data canvas =
      (c.moved (c.rlePos + 2 + 2) (c.rleX + dx) (c.rleY + dy)).paint isRle4 data canvas :=
    paint_delta hb hfin hdrop
  have hb' : (c.moved (c.rlePos + 2 + 2) (c.rleX + dx) (c.rleY + dy)).Bounded data := by
    refine ⟨show c.rlePos + 2 + 2 ≤ data.length + 256 by omega, ?_, ?_, ?_, ?_⟩
    · show 0 ≤ c.rleX + dx
      omega
    · show 2 * (c.rleX + dx) ≤ 255 * ((c.rlePos + 2 + 2 : Nat) : Int)
      omega
    · show 0 ≤ c.rleY + dy
      omega
    · show 2 * (c.rleY + dy) ≤ 255 * ((c.rlePos + 2 + 2 : Nat) : Int)
      omega
  by_cases hdown : dy > 0
  · rw [if_pos hdown]
    exact ⟨_, rfl, rowDone_moved hbuffer hfin hb' (by omega) hpaint⟩
  · rw [if_neg hdown]
    obtain ⟨c', hloop, hdone⟩ := ih hb' (show c.rleY + dy = y by omega) hbuffer (by omega)
      (show data.length < c.rlePos + 2 + 2 + fuel by omega)
    exact ⟨c', hloop, hdone.of_step hpaint (fun _ _ => rfl) rfl⟩

end LoopEnds

/-- The induction is on the rounds; each of them takes two bytes or more. -/
theorem rleLoop_spec (hbytes : ∀ b ∈ data, b < 256) (hlen : data.length ≤ 8388608) (fuel : Nat)
    (hb : c.Bounded data) (hy : c.rleY = y) (hbuffer : c.rowBuffer = imageRow canvas width y)
    (hpos : 0 < fuel) (hfuel : data.length < c.rlePos + fuel) :
    ∃ c', c.rleLoop data width isRle4 y fuel = some c' ∧
      RowDone data width isRle4 y canvas c c' := by
  induction fuel generalizing c canvas with
  | zero => exact absurd hpos (Nat.lt_irrefl 0)
  | succ fuel ih =>
    have hloop : LoopEnds data width isRle4 y fuel := ih
    obtain ⟨hp, hx0, hx, hy0, hyle⟩ := id hb
    rw [RowCursor.rleLoop]
    by_cases hfin : c.finished = true
    · rw [if_neg (by simp [hfin])]
      refine ⟨c, rfl, hb, rfl, ?_, Or.inl hfin, fun r _ => rfl⟩
      unfold RowCursor.paint
      rw [RowCursor.left_of_finished hfin]
      exact hbuffer
    have hfin : c.finished = false := Bool.eq_false_iff.mpr hfin
    rw [if_pos ⟨hfin, hy⟩]
    by_cases hend : c.rlePos + 2 > data.length
    · rw [if_pos hend]
      refine ⟨_, rfl, rowDone_finish hb hbuffer hp (Nat.le_refl _) ?_⟩
      unfold RowCursor.left
      rw [hfin, tokens_short (by rw [List.length_drop]; omega)]
      rfl
    have htwo := Nat.not_lt.mp hend
    obtain ⟨count, second, hcount, hsecond, hdrop⟩ := drop_two htwo
    have hcount256 := hbytes count (List.mem_of_getElem? hcount)
    have hsecond256 := hbytes second (List.mem_of_getElem? hsecond)
    rw [if_neg hend, hcount, Option.bind_eq_bind, Option.bind_some, hsecond, Option.bind_some]
    dsimp only
    by_cases hzero : count = 0
    case neg =>
      rw [if_neg hzero]
      exact hloop.run hb hy hbuffer hfin htwo hfuel hlen hzero hcount256 hdrop
    subst hzero
    rw [if_pos rfl]
    by_cases h0 : second = 0
    · subst h0
      rw [if_pos rfl, cInt_of_fits ⟨by omega, by omega⟩]
      refine ⟨_, rfl, rowDone_moved hbuffer hfin ?_ (by omega) (paint_endOfLine hb hfin hdrop)⟩
      refine ⟨show c.rlePos + 2 ≤ data.length + 256 by omega, Int.le_refl 0, ?_, ?_, ?_⟩
      · show 2 * (0 : Int) ≤ 255 * ((c.rlePos + 2 : Nat) : Int)
        omega
      · show 0 ≤ c.rleY + 1
        omega
      · show 2 * (c.rleY + 1) ≤ 255 * ((c.rlePos + 2 : Nat) : Int)
        omega
    rw [if_neg h0]
    by_cases h1 : second = 1
    · subst h1
      rw [if_pos rfl]
      refine ⟨_, rfl, rowDone_finish hb hbuffer (by omega) (Nat.le_add_right _ 2) ?_⟩
      unfold RowCursor.left
      rw [hfin, hdrop, tokens_endOfBitmap]
      rfl
    rw [if_neg h1]
    by_cases h2 : second = 2
    · subst h2
      rw [if_pos rfl]
      by_cases hcut : c.rlePos + 2 + 2 > data.length
      · rw [if_pos hcut]
        refine ⟨_, rfl, rowDone_finish hb hbuffer (by omega) (Nat.le_add_right _ 2) ?_⟩
        unfold RowCursor.left
        rw [hfin, hdrop, tokens_delta_short (by rw [List.length_drop]; omega)]
        rfl
      have hfour := Nat.not_lt.mp hcut
      obtain ⟨dx, dy, hdx, hdy, hdrop'⟩ := drop_two hfour
      have hdx256 := hbytes dx (List.mem_of_getElem? hdx)
      have hdy256 := hbytes dy (List.mem_of_getElem? hdy)
      rw [hdrop'] at hdrop
      rw [if_neg hcut]
      simp only [hdx, hdy, Option.bind_eq_bind, Option.bind_some]
      rw [cInt_of_fits ⟨by omega, by omega⟩, Option.bind_some, cInt_of_fits ⟨by omega, by omega⟩,
        Option.bind_some]
      exact hloop.delta hb hy hbuffer hfin hfuel hlen hdx256 hdy256 hfour hdrop
    rw [if_neg h2]
    exact hloop.literal hb hy hbuffer hfin htwo hfuel hlen (by omega) hsecond256 hdrop

end Loop

/-! ## The rows -/

/-- A cursor before the row `k`, which has that row and the ones behind it still to come. -/
structure RowCursor.Ahead (c : RowCursor) (data : List Nat) (width : Nat) (isRle4 : Bool)
    (k : Nat) : Prop where
  bounded : c.Bounded data
  nextRow : c.nextRow = k
  length : c.rowBuffer.length = width
  behind : c.finished = true ∨ k ≤ c.rleY
  paint : ∀ r, k ≤ r → rleImage isRle4 data r = c.paint isRle4 data (fun _ _ => 0) r

section Rows

variable {data : List Nat} {width k : Nat} {isRle4 : Bool} {c : RowCursor}

theorem imageRow_zero (width y : Nat) :
    imageRow (fun _ _ => 0) width y = List.replicate width 0 := by
  unfold imageRow
  rw [List.map_const', List.length_range]

theorem ahead_init {stale : List Nat} (h : stale.length = width) :
    (RowCursor.init stale).Ahead data width isRle4 0 := by
  refine ⟨⟨Nat.zero_le _, Int.le_refl 0, ?_, Int.le_refl 0, ?_⟩, rfl, h, Or.inr (Int.le_refl 0),
    fun r _ => rfl⟩
  · show 2 * (0 : Int) ≤ 255 * ((0 : Nat) : Int)
    omega
  · show 2 * (0 : Int) ≤ 255 * ((0 : Nat) : Int)
    omega

/-- The row is empty, if the stream is at its end or behind the row. -/
theorem RowCursor.paint_of_behind (h : c.finished = true ∨ (k : Int) < c.rleY) (canvas : Canvas) :
    c.paint isRle4 data canvas k = canvas k := by
  unfold RowCursor.paint
  rcases h with h | h
  · rw [RowCursor.left_of_finished h]
    rfl
  · exact paintTokens_below (by omega) _ _

theorem nextRle_spec (hbytes : ∀ b ∈ data, b < 256) (hlen : data.length ≤ 8388608) {fuel : Nat}
    (hfuel : data.length < fuel) (h : c.Ahead data width isRle4 k)
    (hfits : (k : Int) + 1 ≤ 2147483647) :
    ∃ c', c.nextRle data width isRle4 fuel = some c' ∧ c'.Ahead data width isRle4 (k + 1) ∧
      c'.rowBuffer = imageRow (rleImage isRle4 data) width k := by
  let cleared : RowCursor := { c with rowBuffer := List.replicate width 0 }
  have hclear : c.clearRow width = some cleared := by
    unfold RowCursor.clearRow
    rw [if_pos (Nat.le_of_eq h.length.symm), List.drop_eq_nil_of_le (Nat.le_of_eq h.length),
      List.append_nil]
  have hrow := h.paint k (Nat.le_refl k)
  have hb : cleared.Bounded data := ⟨h.bounded.pos, h.bounded.x_nonneg, h.bounded.x_le,
    h.bounded.y_nonneg, h.bounded.y_le⟩
  have hdecode : ∃ c', cleared.decodeRow data width isRle4 fuel = some c' ∧
      RowDone data width isRle4 k (fun _ _ => 0) cleared c' := by
    unfold RowCursor.decodeRow
    by_cases hbehind : c.finished = true ∨ c.nextRow < c.rleY
    · have hbehind' : c.finished = true ∨ (k : Int) < c.rleY := by rwa [h.nextRow] at hbehind
      rw [if_pos (show cleared.finished = true ∨ cleared.nextRow < cleared.rleY from hbehind)]
      refine ⟨cleared, rfl, hb, rfl, ?_, hbehind', fun r _ => rfl⟩
      have hempty : cleared.paint isRle4 data (fun _ _ => 0) k = fun _ => 0 :=
        RowCursor.paint_of_behind (c := cleared) hbehind' _
      exact (imageRow_zero width k).symm.trans (imageRow_congr hempty.symm)
    · rw [if_neg (show ¬(cleared.finished = true ∨ cleared.nextRow < cleared.rleY) from hbehind)]
      have hy : cleared.rleY = k := by
        have := h.behind.resolve_left (not_or.mp hbehind).1
        have := h.nextRow
        show c.rleY = k
        omega
      rw [show cleared.nextRow = k from h.nextRow]
      exact rleLoop_spec hbytes hlen fuel hb hy (imageRow_zero width k).symm (by omega) (by omega)
  obtain ⟨c', hdecode, hdone⟩ := hdecode
  have hnext : c'.nextRow = k := hdone.nextRow.trans h.nextRow
  have hbuffer : c'.rowBuffer = imageRow (rleImage isRle4 data) width k :=
    hdone.buffer.trans (imageRow_congr hrow.symm)
  unfold RowCursor.nextRle
  rw [hclear, Option.bind_eq_bind, Option.bind_some, hdecode, Option.bind_some, hnext,
    cInt_of_fits ⟨by omega, hfits⟩]
  refine ⟨_, rfl, ⟨⟨hdone.bounded.pos, hdone.bounded.x_nonneg, hdone.bounded.x_le,
    hdone.bounded.y_nonneg, hdone.bounded.y_le⟩, rfl, ?_, hdone.behind.imp_right fun hlt => hlt,
    fun r hr => (h.paint r (by omega)).trans (hdone.paint r (by omega))⟩, hbuffer⟩
  show c'.rowBuffer.length = width
  rw [hbuffer]
  simp [imageRow]

/-- Behind the last row the cursor stays as it is. -/
theorem rows_drained {height : Int} (h : height ≤ c.nextRow) (fuel calls : Nat) :
    RowCursor.rows data width height isRle4 fuel calls c = some (List.replicate calls none) := by
  induction calls with
  | zero => rfl
  | succ calls ih =>
    have hnext : c.next data width height isRle4 fuel = some (c, none) := if_pos h
    rw [RowCursor.rows, hnext, Option.bind_eq_bind, Option.bind_some]
    dsimp only
    rw [ih]
    rfl

/-- The induction is on the calls. -/
theorem rows_ahead (hbytes : ∀ b ∈ data, b < 256) (hlen : data.length ≤ 8388608) {height : Int}
    (hheight : height ≤ 2147483647) {fuel : Nat} (hfuel : data.length < fuel) (calls : Nat)
    (h : c.Ahead data width isRle4 k) :
    RowCursor.rows data width height isRle4 fuel calls c =
      some ((List.range' k calls).map fun (y : Nat) =>
        if (y : Int) < height then some (imageRow (rleImage isRle4 data) width y) else none) := by
  induction calls generalizing c k with
  | zero => rfl
  | succ calls ih =>
    have hnextRow := h.nextRow
    by_cases hrow : (k : Int) < height
    · obtain ⟨c', hrle, hahead, hbuffer⟩ := nextRle_spec hbytes hlen hfuel h (by omega)
      have hnext : c.next data width height isRle4 fuel = some (c', some c'.rowBuffer) := by
        unfold RowCursor.next
        rw [if_neg (by omega), hrle]
        rfl
      rw [RowCursor.rows, hnext, Option.bind_eq_bind, Option.bind_some]
      dsimp only
      rw [ih hahead, List.range'_succ, List.map_cons, if_pos hrow, hbuffer]
      rfl
    · rw [rows_drained (by omega)]
      refine congrArg some (List.ext_getElem (by simp) fun y _ _ => ?_)
      rw [List.getElem_replicate, List.getElem_map, List.getElem_range', if_neg (by omega)]

/--
The rows that the cursor returns are those of the whole image, and nothing after the last of them.
Reads outside the stream and writes outside the buffer would be `none`.
-/
theorem rows_eq_image (hbytes : ∀ b ∈ data, b < 256) (hlen : data.length ≤ 8388608)
    {stale : List Nat} (hstale : stale.length = width) {height : Int}
    (hheight : height ≤ 2147483647) {fuel : Nat} (hfuel : data.length < fuel) (calls : Nat) :
    RowCursor.rows data width height isRle4 fuel calls (RowCursor.init stale) =
      some ((List.range calls).map fun (y : Nat) =>
        if (y : Int) < height then some (imageRow (rleImage isRle4 data) width y) else none) := by
  rw [List.range_eq_range']
  exact rows_ahead hbytes hlen hheight hfuel calls (ahead_init hstale)

/-- A run, the end of its line, and a literal run of three pixels in the row after the next. -/
theorem rows_eq_image_three_rows :
    (List.range 4).map (fun (y : Nat) =>
        if (y : Int) < 3 then
          some (imageRow (rleImage true [2, 112, 0, 0, 0, 2, 1, 1, 0, 3, 18, 48, 0, 1]) 4 y)
        else none) =
      [some [7, 0, 0, 0], some [0, 0, 0, 0], some [0, 1, 2, 3], none] :=
  Option.some.inj ((rows_eq_image (by decide) (by decide) (rfl : [9, 9, 9, 9].length = 4)
    (by decide) (by decide : 14 < 15) 4).symm.trans (by decide))

end Rows

end Nolrem.Cd
