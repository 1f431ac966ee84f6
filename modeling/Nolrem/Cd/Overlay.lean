import Nolrem.Cd.Mouse
import Nolrem.Lib.Transition

/-!
# The cursor overlay over runs

The frame buffer is always what the painters drew with the cursor over it, or without. Requests that
lose the lock are folded into two flags, a pending shape and a position, and `wanted` says whether
their replay ends with a cursor on screen.
-/

namespace Nolrem.Cd

open Nolrem.Lib

variable {base : FrameBuffer} {m : Mouse}

namespace Mouse

/-! ## The frame buffer -/

/-- The cursor lies over `base`, and what it hides is in the restore buffer. -/
structure Layered (base : FrameBuffer) (m : Mouse) : Prop where
  painted : m.onscreen = true → m.fb = vgaDrawMouse base m.screenX m.screenY m.shape
  screenW : m.onscreen = true → m.screenW = m.shape.width
  screenH : m.onscreen = true → m.screenH = m.shape.lines
  saved : m.onscreen = true → ∀ p, Covers m.screenX m.screenY m.screenW m.screenH p →
    m.restore (p.1 - m.screenX, p.2 - m.screenY) = base p
  clean : m.onscreen = false → m.fb = base

/-- A removal puts back exactly what the painters drew. -/
theorem Layered.fb_realRemoveMouse (h : m.Layered base) : m.realRemoveMouse.fb = base := by
  unfold realRemoveMouse
  split
  next hon =>
    funext p
    simp only [vgaRemoveMouse]
    split
    next hc => exact h.saved hon p hc
    next hc =>
      rw [h.screenW hon, h.screenH hon] at hc
      rw [h.painted hon, vgaDrawMouse, if_neg hc]
  next hon => exact h.clean (by simpa using hon)

@[simp] theorem onscreen_realRemoveMouse (m : Mouse) : m.realRemoveMouse.onscreen = false := by
  unfold realRemoveMouse
  split
  · rfl
  next hon => simpa using hon

theorem layered_of_clean (hf : m.fb = base) (hon : m.onscreen = false) : m.Layered base where
  painted h := absurd h (by simp [hon])
  screenW h := absurd h (by simp [hon])
  screenH h := absurd h (by simp [hon])
  saved h := absurd h (by simp [hon])
  clean _ := hf

theorem layered_paintCursor (hf : m.fb = base) (x y : Int) : (m.paintCursor x y).Layered base where
  painted _ := by
    rw [← hf]
    rfl
  screenW _ := rfl
  screenH _ := rfl
  saved _ p hp := by
    -- the restore buffer is indexed from the corner of the cursor
    have corner (a b : Int) : a + (b - a) = b := by omega
    simp only [paintCursor, vgaSaveUnder, corner, hf] at hp ⊢
    rw [if_pos hp]
  clean h := absurd h (by simp [paintCursor])

theorem Layered.realRemoveMouse (h : m.Layered base) : m.realRemoveMouse.Layered base :=
  layered_of_clean h.fb_realRemoveMouse (onscreen_realRemoveMouse m)

theorem Layered.realDrawMouse (h : m.Layered base) (x y : Int) :
    (m.realDrawMouse x y).Layered base :=
  layered_paintCursor h.fb_realRemoveMouse x y

theorem Layered.applyCursorRecord (h : m.Layered base) (rec : List Nat) (flipVt : Bool) :
    (m.applyCursorRecord rec flipVt).Layered base := by
  have hc : ({ m.realRemoveMouse with shape := decodeRecord rec flipVt } : Mouse).Layered base :=
    layered_of_clean h.fb_realRemoveMouse (onscreen_realRemoveMouse m)
  unfold Mouse.applyCursorRecord
  dsimp only
  split
  · exact hc.realDrawMouse _ _
  · exact hc

/-- Flags and the rest of the requests have no part in what is on screen. -/
theorem Layered.congr {m' : Mouse} (h : m.Layered base) (hs : m'.shape = m.shape)
    (ho : m'.onscreen = m.onscreen) (hx : m'.screenX = m.screenX) (hy : m'.screenY = m.screenY)
    (hw : m'.screenW = m.screenW) (hh : m'.screenH = m.screenH) (hf : m'.fb = m.fb)
    (hr : m'.restore = m.restore) : m'.Layered base := by
  constructor <;> rw [ho] <;> intro hon
  · rw [hf, hx, hy, hs]
    exact h.painted hon
  · rw [hw, hs]
    exact h.screenW hon
  · rw [hh, hs]
    exact h.screenH hon
  · rw [hx, hy, hw, hh, hr]
    exact h.saved hon
  · rw [hf]
    exact h.clean hon

theorem Layered.applyPendingCursor (h : m.Layered base) : m.applyPendingCursor.Layered base := by
  unfold Mouse.applyPendingCursor
  split
  · exact h
  · apply Layered.applyCursorRecord
    exact h.congr rfl rfl rfl rfl rfl rfl rfl rfl

theorem Layered.owedRemove (h : m.Layered base) : m.owedRemove.Layered base := by
  unfold Mouse.owedRemove
  split
  · apply Layered.realRemoveMouse
    exact h.congr rfl rfl rfl rfl rfl rfl rfl rfl
  · exact h

theorem Layered.owedDraw (h : m.Layered base) : m.owedDraw.Layered base := by
  unfold Mouse.owedDraw
  split
  · apply Layered.realDrawMouse
    exact h.congr rfl rfl rfl rfl rfl rfl rfl rfl
  · exact h

theorem Layered.doBufferedMouse (h : m.Layered base) : m.doBufferedMouse.Layered base :=
  h.applyPendingCursor.owedRemove.owedDraw

theorem Layered.finishDraw (h : m.Layered base) (removeRequested : Bool) :
    (m.finishDraw removeRequested).Layered base := by
  unfold Mouse.finishDraw
  split
  · apply Layered.realDrawMouse
    exact h.congr rfl rfl rfl rfl rfl rfl rfl rfl
  · split
    · exact h.realDrawMouse _ _
    · exact h

theorem Layered.cdEndVideoUpdate (h : m.Layered base) : m.cdEndVideoUpdate.Layered base :=
  (h.applyPendingCursor.owedRemove.finishDraw _).congr rfl rfl rfl rfl rfl rfl rfl rfl

/-! ## The requests -/

/-- The cursor on screen is where the pointer is. -/
def Aligned (m : Mouse) : Prop :=
  m.screenX = m.pointerX - m.shape.hotspotX ∧ m.screenY = m.pointerY - m.shape.hotspotY

/-- Whether the replay of the requests ends with a cursor on screen. -/
def wanted (m : Mouse) : Bool := m.needDraw || (!m.needRemove && (m.onscreen || m.hid))

/-- The shape after the replay of the requests -/
def wantedShape (m : Mouse) : Shape :=
  match m.pending with
  | none => m.shape
  | some rec => decodeRecord rec.1 rec.2

/-- What a state shows and remembers, but for the corner of the cursor -/
structure Status where
  onscreen : Bool
  needRemove : Bool
  needDraw : Bool
  hid : Bool
  pending : Option (List Nat × Bool)
  shape : Shape
  pointerX : Int
  pointerY : Int
  prev : Option (Nat × Nat)

def status (m : Mouse) : Status :=
  ⟨m.onscreen, m.needRemove, m.needDraw, m.hid, m.pending, m.shape, m.pointerX, m.pointerY, m.prev⟩

@[simp] theorem status_realRemoveMouse (m : Mouse) :
    m.realRemoveMouse.status = { m.status with onscreen := false } := by
  unfold realRemoveMouse
  split
  · rfl
  next hon => simp [status, hon]

@[simp] theorem status_realDrawMouse (m : Mouse) (x y : Int) :
    (m.realDrawMouse x y).status = { m.status with onscreen := true } := by
  have h := congrArg (fun st : Status => { st with onscreen := true }) (status_realRemoveMouse m)
  exact h

theorem status_applyCursorRecord (m : Mouse) (rec : List Nat) (flipVt : Bool) :
    (m.applyCursorRecord rec flipVt).status =
      { m.status with shape := decodeRecord rec flipVt } := by
  unfold applyCursorRecord
  generalize decodeRecord rec flipVt = shape
  generalize hm : ({ m.realRemoveMouse with shape := shape } : Mouse) = removed
  have hs : removed.status =
      { m.status with
        onscreen := false
        shape := shape } := by
    rw [← hm]
    exact congrArg (fun st : Status => { st with shape := shape }) (status_realRemoveMouse m)
  dsimp only
  split
  next hon =>
    rw [status_realDrawMouse, hs]
    simp [status, hon]
  next hon =>
    rw [hs]
    simp [status, hon]

theorem status_applyPendingCursor (m : Mouse) :
    m.applyPendingCursor.status =
      { m.status with
        pending := none
        shape := m.wantedShape } := by
  unfold applyPendingCursor wantedShape
  split
  next hp => simp [status, hp]
  next hp =>
    rw [status_applyCursorRecord]
    simp only [status, hp]

theorem status_owedRemove (m : Mouse) :
    m.owedRemove.status =
      { m.status with
        needRemove := false
        onscreen := m.onscreen && !m.needRemove } := by
  unfold owedRemove
  split
  next hr =>
    rw [status_realRemoveMouse]
    simp [status, hr]
  next hr => simp [status, hr]

theorem status_owedDraw (m : Mouse) :
    m.owedDraw.status =
      { m.status with
        needDraw := false
        onscreen := m.onscreen || m.needDraw } := by
  unfold owedDraw
  split
  next hd =>
    rw [status_realDrawMouse]
    simp [status, hd]
  next hd => simp [status, hd]

theorem status_finishDraw (m : Mouse) (removeRequested : Bool) :
    (m.finishDraw removeRequested).status =
      { m.status with
        needDraw := false
        onscreen := m.onscreen || m.needDraw || (m.hid && !removeRequested) } := by
  unfold finishDraw
  split
  next hd =>
    rw [status_realDrawMouse]
    simp [status, hd]
  next hd =>
    split
    next hh =>
      rw [status_realDrawMouse]
      simp [status, hh, hd]
    next hh => simp [status, hh, hd]

theorem aligned_realDrawMouse (m : Mouse) :
    (m.realDrawMouse m.pointerX m.pointerY).Aligned := by
  have h := status_realRemoveMouse m
  simp only [Mouse.status, Status.mk.injEq] at h
  obtain ⟨-, -, -, -, -, hs, hx, hy, -⟩ := h
  simp only [Aligned, realDrawMouse, paintCursor, hs, hx, hy, and_self]

theorem aligned_applyCursorRecord (rec : List Nat) (flipVt : Bool)
    (hon : (m.applyCursorRecord rec flipVt).onscreen = true) :
    (m.applyCursorRecord rec flipVt).Aligned := by
  unfold applyCursorRecord at *
  dsimp only at *
  split
  · exact aligned_realDrawMouse _
  next ho => simp [ho] at hon

/-- A cursor that no drawing is owed to is where the pointer is. -/
def Placed (m : Mouse) : Prop := m.onscreen = true → m.needDraw = false → m.Aligned

theorem Placed.applyPendingCursor (h : m.Placed) : m.applyPendingCursor.Placed := by
  intro hon hd
  unfold Mouse.applyPendingCursor at *
  split
  next hp =>
    simp only [hp] at hon hd
    exact h hon hd
  next hp =>
    simp only [hp] at hon
    exact aligned_applyCursorRecord _ _ hon

theorem Placed.owedRemove (h : m.Placed) : m.owedRemove.Placed := by
  unfold Mouse.owedRemove
  split
  · intro hon
    simp at hon
  · exact h

theorem Placed.finishDraw (h : m.Placed) (removeRequested : Bool)
    (hon : (m.finishDraw removeRequested).onscreen = true) :
    (m.finishDraw removeRequested).Aligned := by
  unfold Mouse.finishDraw at *
  split
  · exact aligned_realDrawMouse { m with needDraw := false }
  next hd =>
    split
    · exact aligned_realDrawMouse m
    next hh =>
      simp only [hd, hh] at hon
      exact h hon (by simpa using hd)

/-- The status once all requests of `m` are carried out -/
def settled (m : Mouse) : Status :=
  ⟨m.wanted, false, false, false, none, m.wantedShape, m.pointerX, m.pointerY, m.prev⟩

theorem status_doBufferedMouse (hh : m.hid = false) : m.doBufferedMouse.status = m.settled := by
  have h1 := status_applyPendingCursor m
  have h2 := status_owedRemove m.applyPendingCursor
  have h3 := status_owedDraw m.applyPendingCursor.owedRemove
  simp only [status, Status.mk.injEq] at h1 h2 h3
  simp only [doBufferedMouse, status, settled, Status.mk.injEq, h1, h2, h3, wanted, hh, and_true]
  cases m.onscreen <;> cases m.needRemove <;> cases m.needDraw <;> rfl

theorem status_cdEndVideoUpdate (m : Mouse) : m.cdEndVideoUpdate.status = m.settled := by
  have h1 := status_applyPendingCursor m
  have h2 := status_owedRemove m.applyPendingCursor
  have h3 := status_finishDraw m.applyPendingCursor.owedRemove m.needRemove
  simp only [status, Status.mk.injEq] at h1 h2 h3
  simp only [cdEndVideoUpdate, status, settled, Status.mk.injEq, h1, h2, h3, wanted, and_true]
  cases m.onscreen <;> cases m.hid <;> cases m.needRemove <;> cases m.needDraw <;> simp

theorem Placed.cdEndVideoUpdate (h : m.Placed) (hon : m.cdEndVideoUpdate.onscreen = true) :
    m.cdEndVideoUpdate.Aligned :=
  h.applyPendingCursor.owedRemove.finishDraw _ hon

end Mouse

/-! ## Runs -/

open Mouse

/-- The frame buffer, the shape and the place of the cursor are as they were asked for. -/
structure OverlaySound (s : VideoState) : Prop where
  /-- With the lock free, there is at most one cursor over what the painters drew. -/
  oneCursor : s.lock = .free →
    s.mouse.fb = s.base ∨ ∃ x y shape, s.mouse.fb = vgaDrawMouse s.base x y shape
  /-- A removal restores what the painters drew. -/
  restores : s.mouse.realRemoveMouse.fb = s.base
  /-- With the lock free and nothing pending, the last requests are what is on screen. -/
  settled : s.lock = .free → s.mouse.needRemove = false → s.mouse.needDraw = false →
    s.mouse.pending = none →
      s.mouse.onscreen = s.lastShown ∧
      s.mouse.fb = if s.lastShown then
          vgaDrawMouse s.base (s.lastX - s.lastShape.hotspotX) (s.lastY - s.lastShape.hotspotY)
            s.lastShape
        else s.base

/-- What every step keeps. -/
structure OverlayInv (cursors : Nat → List Nat) (s : VideoState) : Prop where
  layered : s.mouse.Layered s.base
  placed : s.mouse.Placed
  shown : s.mouse.wanted = s.lastShown
  shape : s.mouse.wantedShape = s.lastShape
  pointerX : s.mouse.pointerX = s.lastX
  pointerY : s.mouse.pointerY = s.lastY
  prev : ∀ cur cursorIndex, s.mouse.prev = some (cur, cursorIndex) →
    VideoState.requestedShape (cursors cur) cursorIndex = some s.lastShape
  hid : s.mouse.hid = true → s.mouse.onscreen = false
  unhid : (∀ x1 y1 x2 y2, s.lock ≠ .painter x1 y1 x2 y2) → s.mouse.hid = false
  apart : ∀ x1 y1 x2 y2 p, s.lock = .painter x1 y1 x2 y2 → s.mouse.onscreen = true →
    Covers s.mouse.screenX s.mouse.screenY s.mouse.screenW s.mouse.screenH p →
    ¬InPaint x1 y1 x2 y2 p

variable {cursors : Nat → List Nat} {s : VideoState}

theorem OverlayInv.sound (h : OverlayInv cursors s) : OverlaySound s where
  oneCursor _ := by
    cases hon : s.mouse.onscreen with
    | false => exact Or.inl (h.layered.clean hon)
    | true => exact Or.inr ⟨_, _, _, h.layered.painted hon⟩
  restores := h.layered.fb_realRemoveMouse
  settled hl hr hd hp := by
    have hh : s.mouse.hid = false := h.unhid fun _ _ _ _ => by simp [hl]
    have hon : s.mouse.onscreen = s.lastShown := by
      rw [← h.shown]
      simp [wanted, hr, hd, hh]
    have hs : s.mouse.shape = s.lastShape := by
      rw [← h.shape]
      simp [wantedShape, hp]
    refine ⟨hon, ?_⟩
    rw [← hon]
    split
    next ho =>
      have hal := h.placed ho hd
      rw [h.layered.painted ho, hal.1, hal.2, h.pointerX, h.pointerY, hs]
    next ho => exact h.layered.clean (by simpa using ho)

/-- After its requests are carried out and before a painter starts, a state is sound. -/
theorem inv_of_settled (hl : s.mouse.Layered s.base)
    (hs : s.mouse.status =
      ⟨s.lastShown, false, false, false, none, s.lastShape, s.lastX, s.lastY, s.mouse.prev⟩)
    (hp : s.mouse.Placed)
    (hprev : ∀ cur cursorIndex, s.mouse.prev = some (cur, cursorIndex) →
      VideoState.requestedShape (cursors cur) cursorIndex = some s.lastShape)
    (hlock : ∀ x1 y1 x2 y2, s.lock ≠ .painter x1 y1 x2 y2) : OverlayInv cursors s := by
  simp only [Mouse.status, Status.mk.injEq, and_true] at hs
  obtain ⟨hon, hr, hd, hh, hpe, hsh, hx, hy⟩ := hs
  constructor
  · exact hl
  · exact hp
  · simp [wanted, hon, hr, hd, hh]
  · simp only [wantedShape, hpe, hsh]
  · exact hx
  · exact hy
  · exact hprev
  · simp [hh]
  · exact fun _ => hh
  · intro x1 y1 x2 y2 p h
    exact absurd h (hlock x1 y1 x2 y2)

theorem tried_not_painter (h : s.acquires = true) (x1 y1 x2 y2 : Int) :
    s.tried ≠ .painter x1 y1 x2 y2 := by
  have hf : s.lock = .free := by simpa [VideoState.acquires] using h
  simp [VideoState.tried, hf]

theorem OverlayInv.hid_eq (h : OverlayInv cursors s) (ha : s.acquires = true) :
    s.mouse.hid = false := by
  have hf : s.lock = .free := by simpa [VideoState.acquires] using ha
  exact h.unhid fun _ _ _ _ => by simp [hf]

theorem tried_of_not_acquires (h : s.acquires = false) : s.tried = s.lock := by
  have hf : s.lock ≠ .free := by simpa [VideoState.acquires] using h
  unfold VideoState.tried
  cases hl : s.lock with
  | free => exact absurd hl hf
  | painter x1 y1 x2 y2 => rfl
  | leaving => rfl

theorem OverlayInv.start (h : OverlayInv cursors s) (hf : s.lock = .free) (x1 y1 x2 y2 : Int) :
    OverlayInv cursors { s with
      mouse := s.mouse.cdStartVideoUpdate x1 y1 x2 y2
      lock := .painter x1 y1 x2 y2 } := by
  have hh : s.mouse.hid = false := h.unhid fun _ _ _ _ => by simp [hf]
  unfold Mouse.cdStartVideoUpdate
  split
  next hc =>
    have hs := status_realRemoveMouse s.mouse
    simp only [Mouse.status, Status.mk.injEq] at hs
    obtain ⟨hon, hr, hd, -, hpe, hsh, hx, hy, hpr⟩ := hs
    constructor
    · exact h.layered.realRemoveMouse.congr rfl rfl rfl rfl rfl rfl rfl rfl
    · intro ho
      simp at ho
    · -- the cursor is hidden instead of shown
      rw [← h.shown]
      simp [wanted, hr, hd, hc.1]
    · rw [← h.shape]
      simp only [wantedShape, hpe, hsh]
    · exact hx.trans h.pointerX
    · exact hy.trans h.pointerY
    · simp only [hpr]
      exact h.prev
    · exact fun _ => hon
    · intro hn
      exact absurd rfl (hn x1 y1 x2 y2)
    · intro _ _ _ _ _ _ ho
      simp at ho
  next hc =>
    constructor
    · exact h.layered
    · exact h.placed
    · exact h.shown
    · exact h.shape
    · exact h.pointerX
    · exact h.pointerY
    · exact h.prev
    · exact h.hid
    · exact fun _ => hh
    · intro a1 b1 a2 b2 p hl ho hp hin
      cases hl
      simp only [Covers, InPaint] at hp hin
      exact hc ⟨ho, by omega, by omega, by omega, by omega⟩

/-- Drawing beside the cursor is drawing under it. -/
theorem Mouse.Layered.paint (h : m.Layered base) {p : Pixel} (colour : Nat)
    (hp : m.onscreen = true → ¬Covers m.screenX m.screenY m.screenW m.screenH p) :
    ({ m with fb := Function.update m.fb p colour } : Mouse).Layered
      (Function.update base p colour) where
  painted ho := by
    have hn := hp ho
    rw [h.screenW ho, h.screenH ho] at hn
    funext q
    dsimp only
    rw [h.painted ho]
    by_cases hq : q = p
    · subst hq
      simp [vgaDrawMouse, hn]
    · simp only [vgaDrawMouse, Function.update_of_ne hq]
  screenW := h.screenW
  screenH := h.screenH
  saved ho q hq := by
    have hne : q ≠ p := by
      intro he
      exact hp ho (he ▸ hq)
    rw [Function.update_of_ne hne]
    exact h.saved ho q hq
  clean ho := by
    dsimp only
    rw [h.clean ho]

theorem OverlayInv.paint (h : OverlayInv cursors s) {x1 y1 x2 y2 : Int}
    (hl : s.lock = .painter x1 y1 x2 y2) {p : Pixel} (hp : InPaint x1 y1 x2 y2 p) (colour : Nat) :
    OverlayInv cursors { s with
      mouse := { s.mouse with fb := Function.update s.mouse.fb p colour }
      base := Function.update s.base p colour } where
  layered := h.layered.paint colour fun ho hc => h.apart x1 y1 x2 y2 p hl ho hc hp
  placed := h.placed
  shown := h.shown
  shape := h.shape
  pointerX := h.pointerX
  pointerY := h.pointerY
  prev := h.prev
  hid := h.hid
  unhid := h.unhid
  apart := h.apart

theorem OverlayInv.endVideoUpdate (h : OverlayInv cursors s) :
    OverlayInv cursors { s with
      mouse := s.mouse.cdEndVideoUpdate
      lock := .leaving } := by
  have hs := status_cdEndVideoUpdate s.mouse
  have hprev := congrArg Status.prev hs
  simp only [Mouse.settled, h.shown, h.shape, h.pointerX, h.pointerY] at hs
  apply inv_of_settled
  · exact h.layered.cdEndVideoUpdate
  · rw [hs]
    exact congrArg (Status.mk _ _ _ _ _ _ _ _) hprev.symm
  · exact fun ho _ => h.placed.cdEndVideoUpdate ho
  · intro cur cursorIndex hc
    exact h.prev cur cursorIndex (hprev.symm.trans hc)
  · exact fun _ _ _ _ => nofun

theorem OverlayInv.release (h : OverlayInv cursors s) (hl : s.lock = .leaving) :
    OverlayInv cursors { s with lock := .free } where
  layered := h.layered
  placed := h.placed
  shown := h.shown
  shape := h.shape
  pointerX := h.pointerX
  pointerY := h.pointerY
  prev := h.prev
  hid := h.hid
  unhid _ := h.unhid fun _ _ _ _ => by simp [hl]
  apart := nofun

theorem OverlayInv.drawMouse (h : OverlayInv cursors s) (x y : Int) :
    OverlayInv cursors { s with
      mouse := s.mouse.cdDrawMouse s.acquires x y
      lock := s.tried
      lastShown := true
      lastX := x
      lastY := y } := by
  unfold Mouse.cdDrawMouse
  generalize hm : ({ s.mouse with
    pointerX := x
    pointerY := y } : Mouse) = m
  have hl : m.Layered s.base := by
    rw [← hm]
    exact h.layered.congr rfl rfl rfl rfl rfl rfl rfl rfl
  have hshape : m.wantedShape = s.lastShape := by
    rw [← h.shape, ← hm]
    rfl
  have hx : m.pointerX = x := by rw [← hm]
  have hy : m.pointerY = y := by rw [← hm]
  cases ha : s.acquires with
  | true =>
    have hh : m.hid = false := by
      rw [← hm]
      exact h.hid_eq ha
    have hs : (m.doBufferedMouse.realDrawMouse x y).status =
        ⟨true, false, false, false, none, s.lastShape, x, y, s.mouse.prev⟩ := by
      rw [status_realDrawMouse, status_doBufferedMouse hh, Mouse.settled, hshape, ← hm]
    have hb := status_doBufferedMouse hh
    simp only [Mouse.status, Mouse.settled, Status.mk.injEq] at hb
    have hprev := congrArg Status.prev hs
    dsimp only
    rw [if_pos rfl]
    apply inv_of_settled
    · exact hl.doBufferedMouse.realDrawMouse x y
    · rw [hs]
      exact congrArg (Status.mk _ _ _ _ _ _ _ _) hprev.symm
    · intro _ _
      have hal := aligned_realDrawMouse m.doBufferedMouse
      rw [hb.2.2.2.2.2.2.1, hb.2.2.2.2.2.2.2.1, hx, hy] at hal
      exact hal
    · intro cur cursorIndex hc
      exact h.prev cur cursorIndex (hprev.symm.trans hc)
    · exact tried_not_painter ha
  | false =>
    -- the draw is buffered
    rw [if_neg nofun, tried_of_not_acquires ha]
    subst hm
    constructor
    · exact h.layered.congr rfl rfl rfl rfl rfl rfl rfl rfl
    · exact fun _ hd => absurd hd nofun
    · rfl
    · exact h.shape
    · rfl
    · rfl
    · exact h.prev
    · exact h.hid
    · exact h.unhid
    · exact h.apart

theorem OverlayInv.removeMouse (h : OverlayInv cursors s)
    (hd : s.lock ≠ .free → s.mouse.needDraw = false) :
    OverlayInv cursors { s with
      mouse := s.mouse.cdRemoveMouse s.acquires
      lock := s.tried
      lastShown := false } := by
  unfold Mouse.cdRemoveMouse
  cases ha : s.acquires with
  | true =>
    have hs : s.mouse.doBufferedMouse.realRemoveMouse.status =
        ⟨false, false, false, false, none, s.lastShape, s.lastX, s.lastY, s.mouse.prev⟩ := by
      rw [status_realRemoveMouse, status_doBufferedMouse (h.hid_eq ha), Mouse.settled, h.shape,
        h.pointerX, h.pointerY]
    have hprev := congrArg Status.prev hs
    rw [if_pos rfl]
    apply inv_of_settled
    · exact h.layered.doBufferedMouse.realRemoveMouse
    · rw [hs]
      exact congrArg (Status.mk _ _ _ _ _ _ _ _) hprev.symm
    · intro ho
      simp at ho
    · intro cur cursorIndex hc
      exact h.prev cur cursorIndex (hprev.symm.trans hc)
    · exact tried_not_painter ha
  | false =>
    -- the removal is buffered, and no draw is: the replay ends with it
    have hl : s.lock ≠ .free := by simpa [VideoState.acquires] using ha
    rw [if_neg nofun, tried_of_not_acquires ha]
    constructor
    · exact h.layered.congr rfl rfl rfl rfl rfl rfl rfl rfl
    · exact h.placed
    · simp [wanted, hd hl]
    · exact h.shape
    · exact h.pointerX
    · exact h.pointerY
    · exact h.prev
    · exact h.hid
    · exact h.unhid
    · exact h.apart

/-- `CdSetCursor` with a new shape -/
theorem OverlayInv.newCursor (h : OverlayInv cursors s) {cur cursorIndex : Nat}
    {rec : List Nat × Bool}
    (hr : VideoState.requestedShape (cursors cur) cursorIndex = some (decodeRecord rec.1 rec.2))
    {m : Mouse} (hm : m = { s.mouse with prev := some (cur, cursorIndex) }) :
    OverlayInv cursors { s with
      mouse :=
        if s.acquires then m.doBufferedMouse.applyCursorRecord rec.1 rec.2
        else { m with pending := some rec }
      lock := s.tried
      lastShape := decodeRecord rec.1 rec.2 } := by
  have hprev (c i : Nat) (hc : some (cur, cursorIndex) = some (c, i)) :
      VideoState.requestedShape (cursors c) i = some (decodeRecord rec.1 rec.2) := by
    cases hc
    exact hr
  cases ha : s.acquires with
  | true =>
    have hh : m.hid = false := by
      rw [hm]
      exact h.hid_eq ha
    have hl : m.Layered s.base := by
      rw [hm]
      exact h.layered.congr rfl rfl rfl rfl rfl rfl rfl rfl
    have hw : m.wanted = s.lastShown := by
      rw [← h.shown, hm]
      rfl
    have hs : (m.doBufferedMouse.applyCursorRecord rec.1 rec.2).status =
        ⟨s.lastShown, false, false, false, none, decodeRecord rec.1 rec.2, s.lastX, s.lastY,
          some (cur, cursorIndex)⟩ := by
      rw [status_applyCursorRecord, status_doBufferedMouse hh, Mouse.settled, hw, ← h.pointerX,
        ← h.pointerY, hm]
    have hpr := congrArg Status.prev hs
    rw [if_pos rfl]
    apply inv_of_settled
    · exact hl.doBufferedMouse.applyCursorRecord rec.1 rec.2
    · rw [hs]
      exact congrArg (Status.mk _ _ _ _ _ _ _ _) hpr.symm
    · exact fun ho _ => aligned_applyCursorRecord _ _ ho
    · intro c i hc
      exact hprev c i (hpr.symm.trans hc)
    · exact tried_not_painter ha
  | false =>
    -- the shape is buffered, in place of one that was so before
    rw [if_neg nofun, tried_of_not_acquires ha]
    subst hm
    constructor
    · exact h.layered.congr rfl rfl rfl rfl rfl rfl rfl rfl
    · exact h.placed
    · exact h.shown
    · rfl
    · exact h.pointerX
    · exact h.pointerY
    · exact hprev
    · exact h.hid
    · exact h.unhid
    · exact h.apart

theorem OverlayInv.setCursor (h : OverlayInv cursors s) (cur cursorIndex : Nat) :
    OverlayInv cursors (s.setCursor (cursors cur) cur cursorIndex) := by
  unfold VideoState.setCursor Mouse.cdSetCursor
  by_cases hp : s.mouse.prev = some (cur, cursorIndex)
  · -- no change: the shape asked for is the last one
    simp only [hp, if_true, true_or, h.prev cur cursorIndex hp, Option.getD_some]
    exact h
  · cases hf : findCursorRecord (cursors cur) cursorIndex with
    | error err =>
      simp only [hp, if_false, false_or, ne_eq, reduceCtorEq, not_false_eq_true, if_true]
      exact h
    | ok rec =>
      have hr : VideoState.requestedShape (cursors cur) cursorIndex =
          some (decodeRecord rec.1 rec.2) := by
        simp only [VideoState.requestedShape, hf]
      have hn := h.newCursor hr rfl
      cases ha : s.acquires <;>
        simpa only [hp, ha, hr, if_false, if_true, Option.getD_some, ne_eq, not_true_eq_false,
          or_false, reduceIte, Bool.false_eq_true] using hn

/-! ## Requests in order -/

/-- A removal that loses the lock finds no drawing that waits for the lock. -/
def Ordered (s : VideoState) : VideoCall → Prop
  | .removeMouse => s.lock ≠ .free → s.mouse.needDraw = false
  | _ => True

/-- A step that keeps the requests in order -/
def OrderedStep (cursors : Nat → List Nat) (s s' : VideoState) : Prop :=
  ∃ call, Ordered s call ∧ s.step cursors call = some s'

theorem OverlayInv.step (h : OverlayInv cursors s) {s' : VideoState}
    (hs : OrderedStep cursors s s') : OverlayInv cursors s' := by
  obtain ⟨call, ho, hs⟩ := hs
  cases call with
  | startVideoUpdate x1 y1 x2 y2 =>
    simp only [VideoState.step] at hs
    split at hs
    next hf =>
      cases hs
      exact h.start hf x1 y1 x2 y2
    · cases hs
  | paint p colour =>
    simp only [VideoState.step] at hs
    split at hs
    next hl =>
      split at hs
      next hp =>
        cases hs
        exact h.paint hl hp colour
      · cases hs
    · cases hs
  | endVideoUpdate =>
    simp only [VideoState.step] at hs
    split at hs
    · cases hs
      exact h.endVideoUpdate
    · cases hs
  | release =>
    simp only [VideoState.step] at hs
    split at hs
    next hl =>
      cases hs
      exact h.release hl
    · cases hs
  | drawMouse x y =>
    cases hs
    exact h.drawMouse x y
  | removeMouse =>
    cases hs
    exact h.removeMouse ho
  | setCursor cur cursorIndex =>
    cases cur with
    | none =>
      cases hs
      exact h
    | some cur =>
      cases hs
      exact h.setCursor cur cursorIndex

end Nolrem.Cd
