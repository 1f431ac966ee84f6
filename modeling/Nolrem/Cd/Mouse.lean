import Mathlib.Data.Int.Notation
import Mathlib.Logic.Function.Basic
import Mathlib.Tactic.Common

/-!
# The mouse cursor over the screen

`kernel/CLIPDRAW/mouse.c`, with `VGADrawMouse` and `VGARemoveMouse` of
`kernel/CLIPDRAW/driver/vga16/mouse.c`. The frame buffer is a plane of pixels, each with a colour.
-/

namespace Nolrem.Cd

/-! ## Cursor files -/

inductive Errno where
  | einval
  | enoent
deriving DecidableEq, Repr

/-- `MAX_CURSOR_IDS` -/
def maxCursorIds : Nat := 32

/-- What a record of a cursor file is decoded into. A row that a list lacks is zero. -/
structure Shape where
  hotspotX : Int
  hotspotY : Int
  width : Nat
  lines : Nat
  black : List Nat
  white : List Nat
deriving DecidableEq, Repr

/-- A byte of a cursor file -/
def byteAt (data : List Nat) (i : Nat) : Nat := data.getD i 0

/-- `ReadUnaligned16` -/
def read16 (data : List Nat) (i : Nat) : Nat := byteAt data i + 256 * byteAt data (i + 1)

/-- `ReadUnaligned32AndAdvanceLE` -/
def read32 (data : List Nat) (i : Nat) : Nat := read16 data i + 65536 * read16 data (i + 2)

/-- The bytes of a row of a cursor of this width -/
def rowBytes (width : Nat) : Nat := if 17 ≤ width then 4 else 2

/-- How many rows of `rowBytes` a record has: those of the black layer, and those of the white. -/
def layerCount (flags : Nat) : Nat := (flags / 128 % 2) + (flags / 64 % 2)

/-- `FindCursorRecord`: the bytes from the record on, and `flip_vt`. -/
def findCursorRecord (data : List Nat) (cursorIndex : Nat) : Except Errno (List Nat × Bool) :=
  if data.length < 8 ∨ maxCursorIds ≤ cursorIndex then .error .einval
  else if data.take 4 ≠ [67, 85, 82, 0] then .error .einval
  else
    let numCurs := byteAt data 4
    if numCurs = 0 ∨ maxCursorIds < numCurs then .error .einval
    else if data.length < 8 + 2 * numCurs then .error .einval
    else if numCurs ≤ cursorIndex then .error .einval
    else
      let entry := read16 data (8 + cursorIndex * 2)
      let offset := entry % 32768
      if offset = 0 then .error .enoent
      else if data.length < offset + 4 then .error .einval
      else
        let lines := byteAt data (offset + 2)
        let flags := byteAt data (offset + 3)
        if 32 < lines then .error .einval
        else if 32 < flags % 64 then .error .einval
        else if data.length < offset + 4 + lines * rowBytes (flags % 64) * layerCount flags then
          .error .einval
        else .ok (data.drop offset, entry / 32768 % 2 = 1)

/-- A row of a record: rows of less than 17 pixels are read into the high half. -/
def recordRow (rec : List Nat) (width k : Nat) : Nat :=
  if 17 ≤ width then read32 rec (4 + 4 * k) else read16 rec (4 + 2 * k) * 65536

/-- One layer of a record, from its `start`-th row on -/
def recordLayer (rec : List Nat) (width lines start : Nat) (flipVt : Bool) : List Nat :=
  let rows := (List.range lines).map fun i => recordRow rec width (start + i)
  if flipVt then rows.reverse else rows

/-- The decoding of `ApplyCursorRecord` -/
def decodeRecord (rec : List Nat) (flipVt : Bool) : Shape :=
  let lines := byteAt rec 2
  let flags := byteAt rec 3
  let hasBlack := flags / 128 % 2 = 1
  let width := flags % 64
  { hotspotX := Int.bmod (byteAt rec 0) 256
    hotspotY := Int.bmod (byteAt rec 1) 256
    width := width
    lines := lines
    black := if hasBlack then recordLayer rec width lines 0 flipVt else []
    white :=
      if flags / 64 % 2 = 1 then
        recordLayer rec width lines (if hasBlack then lines else 0) flipVt
      else [] }

/-! ## The driver -/

abbrev Pixel := Int × Int

abbrev FrameBuffer := Pixel → Nat

/-- The pixels of a cursor at `x`, `y`: those past the right edge are left out. -/
def Covers (x y : Int) (width height : Nat) (p : Pixel) : Prop :=
  x ≤ p.1 ∧ p.1 < x + width ∧ p.1 < 640 ∧ y ≤ p.2 ∧ p.2 < y + height

instance (x y : Int) (width height : Nat) (p : Pixel) : Decidable (Covers x y width height p) :=
  inferInstanceAs (Decidable (_ ∧ _))

/-- The colour of a cursor at a column and a row, over the colour under it. -/
def Shape.over (shape : Shape) (col row under : Nat) : Nat :=
  if (shape.black.getD row 0).testBit (31 - col) then 0
  else if (shape.white.getD row 0).testBit (31 - col) then 15
  else under

/-- `VGADrawMouse`: what it leaves in the frame buffer. -/
def vgaDrawMouse (fb : FrameBuffer) (x y : Int) (shape : Shape) : FrameBuffer := fun p =>
  if Covers x y shape.width shape.lines p then
    shape.over (p.1 - x).toNat (p.2 - y).toNat (fb p)
  else fb p

/-- `VGADrawMouse`: what it leaves in the restore buffer. -/
def vgaSaveUnder (fb : FrameBuffer) (x y : Int) (shape : Shape) (restore : FrameBuffer) :
    FrameBuffer := fun q =>
  if Covers x y shape.width shape.lines (x + q.1, y + q.2) then fb (x + q.1, y + q.2) else restore q

/-- `VGARemoveMouse` -/
def vgaRemoveMouse (fb : FrameBuffer) (x y : Int) (restore : FrameBuffer) (width height : Nat) :
    FrameBuffer := fun p =>
  if Covers x y width height p then restore (p.1 - x, p.2 - y) else fb p

/-! ## The overlay -/

/-- The variables of `mouse.c`, the frame buffer and the driver's restore buffer -/
structure Mouse where
  shape : Shape
  /-- `prev_cursor` and `prev_cursor_index` -/
  prev : Option (Nat × Nat)
  pointerX : Int
  pointerY : Int
  onscreen : Bool
  screenX : Int
  screenY : Int
  screenW : Nat
  screenH : Nat
  needRemove : Bool
  needDraw : Bool
  /-- `pending_cursor_record` and `pending_cursor_flip_vt`, with a `pending_cursor` -/
  pending : Option (List Nat × Bool)
  hid : Bool
  fb : FrameBuffer
  restore : FrameBuffer

namespace Mouse

/-- `RealRemoveMouse` -/
def realRemoveMouse (m : Mouse) : Mouse :=
  if m.onscreen then
    { m with
      fb := vgaRemoveMouse m.fb m.screenX m.screenY m.restore m.screenW m.screenH
      onscreen := false }
  else m

/-- The part of `RealDrawMouse` after its call of `RealRemoveMouse` -/
def paintCursor (m : Mouse) (x y : Int) : Mouse :=
  { m with
    fb := vgaDrawMouse m.fb (x - m.shape.hotspotX) (y - m.shape.hotspotY) m.shape
    restore := vgaSaveUnder m.fb (x - m.shape.hotspotX) (y - m.shape.hotspotY) m.shape m.restore
    onscreen := true
    screenX := x - m.shape.hotspotX
    screenY := y - m.shape.hotspotY
    screenW := m.shape.width
    screenH := m.shape.lines }

/-- `RealDrawMouse` -/
def realDrawMouse (m : Mouse) (x y : Int) : Mouse := m.realRemoveMouse.paintCursor x y

/-- `ApplyCursorRecord` -/
def applyCursorRecord (m : Mouse) (rec : List Nat) (flipVt : Bool) : Mouse :=
  let m' := { m.realRemoveMouse with shape := decodeRecord rec flipVt }
  if m.onscreen then m'.realDrawMouse m'.pointerX m'.pointerY else m'

/-- `ApplyPendingCursor` -/
def applyPendingCursor (m : Mouse) : Mouse :=
  match m.pending with
  | none => m
  | some rec => { m with pending := none }.applyCursorRecord rec.1 rec.2

/-- The removal that `DoBufferedMouse` and `CdEndVideoUpdate` owe -/
def owedRemove (m : Mouse) : Mouse :=
  if m.needRemove then { m with needRemove := false }.realRemoveMouse else m

/-- The drawing that `DoBufferedMouse` owes -/
def owedDraw (m : Mouse) : Mouse :=
  if m.needDraw then { m with needDraw := false }.realDrawMouse m.pointerX m.pointerY else m

/-- `DoBufferedMouse` -/
def doBufferedMouse (m : Mouse) : Mouse := m.applyPendingCursor.owedRemove.owedDraw

/-- `CdRemoveMouse`, where `acquired` is what `TryAcquireSpinlock` returns -/
def cdRemoveMouse (m : Mouse) (acquired : Bool) : Mouse :=
  if acquired then m.doBufferedMouse.realRemoveMouse else { m with needRemove := true }

/-- `CdDrawMouse` -/
def cdDrawMouse (m : Mouse) (acquired : Bool) (x y : Int) : Mouse :=
  let m := { m with
    pointerX := x
    pointerY := y }
  if acquired then m.doBufferedMouse.realDrawMouse x y else { m with needDraw := true }

/-- `CdStartVideoUpdate` after it acquired the lock -/
def cdStartVideoUpdate (m : Mouse) (x1 y1 x2 y2 : Int) : Mouse :=
  if m.onscreen ∧ m.screenX < x2 ∧ x1 < m.screenX + m.screenW ∧ m.screenY < y2 ∧
      y1 < m.screenY + m.screenH then
    { m.realRemoveMouse with hid := true }
  else m

/-- The drawing that `CdEndVideoUpdate` ends with -/
def finishDraw (m : Mouse) (removeRequested : Bool) : Mouse :=
  if m.needDraw then { m with needDraw := false }.realDrawMouse m.pointerX m.pointerY
  else if m.hid && !removeRequested then m.realDrawMouse m.pointerX m.pointerY
  else m

/-- `CdEndVideoUpdate` until it releases the lock -/
def cdEndVideoUpdate (m : Mouse) : Mouse :=
  let pended := m.applyPendingCursor
  { pended.owedRemove.finishDraw pended.needRemove with hid := false }

/-- `CdSetCursor` on the cursor object `cur` with this file: the state, and the error if any. -/
def cdSetCursor (m : Mouse) (acquired : Bool) (data : List Nat) (cur cursorIndex : Nat) :
    Mouse × Option Errno :=
  if m.prev = some (cur, cursorIndex) then (m, none)
  else
    match findCursorRecord data cursorIndex with
    | .error err => (m, some err)
    | .ok rec =>
      let m := { m with prev := some (cur, cursorIndex) }
      if acquired then (m.doBufferedMouse.applyCursorRecord rec.1 rec.2, none)
      else ({ m with pending := some rec }, none)

end Mouse

/-! ## The system -/

/-- Who holds `video_lock`: a painter with its rectangle, or a call that is about to release it. -/
inductive VideoLock where
  | free
  | painter (x1 y1 x2 y2 : Int)
  | leaving
deriving DecidableEq, Repr

/--
The state, and what was asked for: `base` is what the painters drew, and the rest the last request
for the cursor.
-/
structure VideoState where
  mouse : Mouse
  lock : VideoLock
  base : FrameBuffer
  lastShown : Bool
  lastX : Int
  lastY : Int
  lastShape : Shape

inductive VideoCall where
  | startVideoUpdate (x1 y1 x2 y2 : Int)
  | paint (p : Pixel) (colour : Nat)
  | endVideoUpdate
  | release
  | drawMouse (x y : Int)
  | removeMouse
  | setCursor (cur : Option Nat) (cursorIndex : Nat)

/-- A pixel of a rectangle of a painter -/
def InPaint (x1 y1 x2 y2 : Int) (p : Pixel) : Prop :=
  x1 ≤ p.1 ∧ p.1 < x2 ∧ y1 ≤ p.2 ∧ p.2 < y2

instance (x1 y1 x2 y2 : Int) (p : Pixel) : Decidable (InPaint x1 y1 x2 y2 p) :=
  inferInstanceAs (Decidable (_ ∧ _))

namespace VideoState

/-- `TryAcquireSpinlock` -/
def acquires (s : VideoState) : Bool := s.lock = .free

/-- The lock after a call that tried to acquire it and did its work -/
def tried (s : VideoState) : VideoLock :=
  match s.lock with
  | .free => .leaving
  | lock => lock

/-- The shape that number `cursorIndex` of a cursor file asks for -/
def requestedShape (data : List Nat) (cursorIndex : Nat) : Option Shape :=
  match findCursorRecord data cursorIndex with
  | .error _ => none
  | .ok rec => some (decodeRecord rec.1 rec.2)

/-- A call of `CdSetCursor`. A shape counts as requested when the call succeeds. -/
def setCursor (s : VideoState) (data : List Nat) (cur cursorIndex : Nat) : VideoState :=
  let called := s.mouse.cdSetCursor s.acquires data cur cursorIndex
  { s with
    mouse := called.1
    lock := if s.mouse.prev = some (cur, cursorIndex) ∨ called.2 ≠ none then s.lock else s.tried
    lastShape :=
      if called.2 = none then (requestedShape data cursorIndex).getD s.lastShape else s.lastShape }

/-- One step: of a painter, of a call, or the release of the lock. `none`: it waits for the lock. -/
def step (cursors : Nat → List Nat) (s : VideoState) : VideoCall → Option VideoState
  | .startVideoUpdate x1 y1 x2 y2 =>
    if s.lock = .free then
      some { s with
        mouse := s.mouse.cdStartVideoUpdate x1 y1 x2 y2
        lock := .painter x1 y1 x2 y2 }
    else none
  | .paint p colour =>
    match s.lock with
    | .painter x1 y1 x2 y2 =>
      if InPaint x1 y1 x2 y2 p then
        some { s with
          mouse := { s.mouse with fb := Function.update s.mouse.fb p colour }
          base := Function.update s.base p colour }
      else none
    | _ => none
  | .endVideoUpdate =>
    match s.lock with
    | .painter _ _ _ _ =>
      some { s with
        mouse := s.mouse.cdEndVideoUpdate
        lock := .leaving }
    | _ => none
  | .release => if s.lock = .leaving then some { s with lock := .free } else none
  | .drawMouse x y =>
    some { s with
      mouse := s.mouse.cdDrawMouse s.acquires x y
      lock := s.tried
      lastShown := true
      lastX := x
      lastY := y }
  | .removeMouse =>
    some { s with
      mouse := s.mouse.cdRemoveMouse s.acquires
      lock := s.tried
      lastShown := false }
  | .setCursor cur cursorIndex =>
    match cur with
    | none => some s
    | some cur => some (s.setCursor (cursors cur) cur cursorIndex)

end VideoState

end Nolrem.Cd
