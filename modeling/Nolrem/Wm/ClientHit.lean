import Nolrem.Wm.HitTest

/-!
# Hit testing in a window

`HandleHitTest` of `kernel/_WINMGR/defwinproc.c`. The point is relative to the window, and
`local_client_bound` to its parent.
-/

namespace Nolrem.Wm

/-! ## The answer -/

/-- `HIT_TOP_BORDER` -/
def hitTopBorder : Nat := 1 <<< 0

/-- `HIT_LEFT_BORDER` -/
def hitLeftBorder : Nat := 1 <<< 1

/-- `HIT_BOTTOM_BORDER` -/
def hitBottomBorder : Nat := 1 <<< 2

/-- `HIT_RIGHT_BORDER` -/
def hitRightBorder : Nat := 1 <<< 3

/-- `HIT_TITLEBAR` -/
def hitTitlebar : Nat := 1 <<< 5

/-- `HIT_CLIENT` -/
def hitClient : Nat := 1 <<< 6

/-- `HIT_NONCLIENT` -/
def hitNonclient : Nat := 1 <<< 7

/-- `CORNER_WIDTH` -/
def cornerWidth : Int := 12

/-- `if (c) retv |= flag` -/
def hitIf (c : Bool) (flag retv : Nat) : Nat := if c then retv ||| flag else retv

/-- `HandleHitTest` -/
def handleHitTest (win : Window) (p : Point) : Nat :=
  let hasBorder := doesWindowShowBorder win
  let shadow := if hasBorder then shadowCutIn else 0
  let retv := hitIf (p.y ≥ shadow ∧ p.y < titlebarHeight + shadow) hitTitlebar 0
  let retv := if wmIsPointInRect p.x p.y win.localClientBound then retv ||| hitClient
    else retv ||| hitNonclient
  if !hasBorder then retv
  else
    let retv := hitIf (p.x < borderWidth) hitLeftBorder retv
    let retv := hitIf (p.y < borderWidth) hitTopBorder retv
    let retv := hitIf (p.x ≥ win.localWinBound.w - borderWidth) hitRightBorder retv
    let retv := hitIf (p.y ≥ win.localWinBound.h - borderWidth) hitBottomBorder retv
    -- the bottom right corner is bigger
    hitIf (p.x ≥ win.localWinBound.w - cornerWidth ∧ p.y > win.localWinBound.h - cornerWidth)
      (hitRightBorder ||| hitBottomBorder) retv

theorem hitIf_and (c : Bool) {flag mask : Nat} (h : flag &&& mask = 0) (retv : Nat) :
    hitIf c flag retv &&& mask = retv &&& mask := by
  cases c with
  | false => rfl
  | true => rw [hitIf, if_pos rfl, Nat.and_or_distrib_right, h, Nat.or_zero]

/-- The frame reports other flags. -/
theorem handleHitTest_and (win : Window) (p : Point) {mask : Nat}
    (h : (hitTitlebar ||| hitLeftBorder ||| hitTopBorder ||| hitRightBorder ||| hitBottomBorder) &&&
      mask = 0) :
    handleHitTest win p &&& mask =
      (if wmIsPointInRect p.x p.y win.localClientBound then hitClient else hitNonclient) &&&
        mask := by
  simp only [Nat.and_or_distrib_right, Nat.or_eq_zero_iff] at h
  obtain ⟨⟨⟨⟨htitle, hleft⟩, htop⟩, hright⟩, hbottom⟩ := h
  have hcorner : (hitRightBorder ||| hitBottomBorder) &&& mask = 0 := by
    rw [Nat.and_or_distrib_right, hright, hbottom, Nat.or_zero]
  have hinner (c : Bool) (inside : Bool) :
      (if inside then hitIf c hitTitlebar 0 ||| hitClient
        else hitIf c hitTitlebar 0 ||| hitNonclient) &&& mask =
        (if inside then hitClient else hitNonclient) &&& mask := by
    cases inside <;>
      simp [Nat.and_or_distrib_right, hitIf_and c htitle]
  unfold handleHitTest
  cases hb : doesWindowShowBorder win with
  | false => exact hinner ..
  | true =>
    simp only [Bool.not_true, Bool.false_eq_true, if_false]
    rw [hitIf_and _ hcorner, hitIf_and _ hbottom, hitIf_and _ hright, hitIf_and _ htop,
      hitIf_and _ hleft]
    exact hinner ..

theorem handleHitTest_client (win : Window) (p : Point) :
    handleHitTest win p &&& hitClient ≠ 0 ↔
      wmIsPointInRect p.x p.y win.localClientBound = true := by
  rw [handleHitTest_and win p rfl]
  cases wmIsPointInRect p.x p.y win.localClientBound <;> decide

theorem handleHitTest_nonclient (win : Window) (p : Point) :
    handleHitTest win p &&& hitNonclient ≠ 0 ↔
      ¬ wmIsPointInRect p.x p.y win.localClientBound = true := by
  rw [handleHitTest_and win p rfl]
  cases wmIsPointInRect p.x p.y win.localClientBound <;> decide

/-- Windows of one style and size answer alike if the point is in the client rectangle of both, or
of neither. -/
theorem handleHitTest_congr {win other : Window} {p : Point} (hstyle : other.style = win.style)
    (hw : other.localWinBound.w = win.localWinBound.w)
    (hh : other.localWinBound.h = win.localWinBound.h) :
    handleHitTest other p = handleHitTest win p ↔
      (wmIsPointInRect p.x p.y other.localClientBound = true ↔
        wmIsPointInRect p.x p.y win.localClientBound = true) := by
  constructor
  · intro h
    rw [← handleHitTest_client, ← handleHitTest_client, h]
  · intro h
    unfold handleHitTest doesWindowShowBorder
    rw [hstyle, hw, hh, Bool.eq_iff_iff.mpr h]

/-! ## The client area -/

/-- The width of the border that a window has on its left -/
def borderOf (hasBorder : Bool) : Int := if hasBorder then borderWidth else 0

/-- What a window with these bounds shows of its client area: all of it, or nothing because it is
empty or leaves `int16_t`. -/
structure ClientShown (hasBorder : Bool) (localR : Rect) (origin : Point) : Prop where
  w_pos : 0 < (clientBound hasBorder localR).w
  h_pos : 0 < (clientBound hasBorder localR).h
  right_le : origin.x + borderOf hasBorder + (clientBound hasBorder localR).w ≤ 32767
  bottom_le :
    origin.y + (borderOf hasBorder + titlebarHeight) + (clientBound hasBorder localR).h ≤ 32767

/-- `local_client_bound` has no point of a rectangle of the window's size at `(0, 0)`. -/
def ClientElsewhere (hasBorder : Bool) (localR : Rect) : Prop :=
  let client := clientBound hasBorder localR
  client.w = 0 ∨ client.h = 0 ∨ client.x + client.w ≤ 0 ∨ localR.w ≤ client.x ∨
    client.y + client.h ≤ 0 ∨ localR.h ≤ client.y

/-- Where the window may be for its hits to be right: at the corner of its parent, or, if its client
region is empty, so far away from it that the rectangles do not meet. -/
def ClientHitsFit (hasBorder : Bool) (localR : Rect) (origin : Point) : Prop :=
  (ClientShown hasBorder localR origin → localR.x = 0 ∧ localR.y = 0) ∧
    (¬ ClientShown hasBorder localR origin → ClientElsewhere hasBorder localR)

/-- The fields of a `struct rect` -/
structure Rect.IsInt16 (r : Rect) : Prop where
  x_eq : int16 r.x = r.x
  y_eq : int16 r.y = r.y
  w_eq : int16 r.w = r.w
  h_eq : int16 r.h = r.h

/-- `p` is in the window, relative to its corner. -/
def Window.Inside (win : Window) (p : Point) : Prop :=
  0 ≤ p.x ∧ p.x < win.localWinBound.w ∧ 0 ≤ p.y ∧ p.y < win.localWinBound.h

/-- `HandleHitTest` tells the points of `client_rgn` from the others of the window. -/
def Window.HitsClient (win : Window) : Prop :=
  ∀ p : Point, win.Inside p →
    (handleHitTest win p &&& hitClient ≠ 0 ↔
      (win.globalOffsetCached.x + p.x, win.globalOffsetCached.y + p.y) ∈ win.clientRgn) ∧
    (handleHitTest win p &&& hitNonclient ≠ 0 ↔
      (win.globalOffsetCached.x + p.x, win.globalOffsetCached.y + p.y) ∉ win.clientRgn)

theorem int16_eq (n : Int) : int16 n = n - 65536 * ((n + 32768) / 65536) := by
  unfold int16
  have := Int.le_bmod (x := n) (m := 65536) (by decide)
  have := Int.bmod_lt (x := n) (m := 65536) (by decide)
  have hd := Int.bmod_add_bdiv n 65536
  omega

theorem int16_range {n : Int} (h : int16 n = n) : -32768 ≤ n ∧ n ≤ 32767 := by
  rw [int16_eq] at h
  omega

/-- One side of the client region, for points right of the corner `o`: the region starts `i` from
it, and wraps around when it does not end in `int16_t`. -/
theorem mem_side {o l i k p : Int} (ho : int16 o = o) (hl : int16 l = l) (hi : 0 ≤ i ∧ i ≤ 23)
    (hk : 0 < k ∧ k ≤ 32767) (hp : 0 ≤ p) :
    o + p ∈ interval (int16 (o + int16 (l + i) - l)) (int16 (o + int16 (l + i) - l + k)) ↔
      o + i + k ≤ 32767 ∧ i ≤ p ∧ p < i + k := by
  have := int16_range ho
  have := int16_range hl
  rw [mem_interval]
  simp only [int16_eq]
  omega

section
variable {hasBorder : Bool} {localR : Rect} {origin : Point}

theorem borderOf_range (hasBorder : Bool) : 0 ≤ borderOf hasBorder ∧ borderOf hasBorder ≤ 3 := by
  cases hasBorder <;> decide

theorem clientBound_x (hasBorder : Bool) (localR : Rect) :
    (clientBound hasBorder localR).x = int16 (localR.x + borderOf hasBorder) := rfl

theorem clientBound_y (hasBorder : Bool) (localR : Rect) :
    (clientBound hasBorder localR).y = int16 (localR.y + (borderOf hasBorder + titlebarHeight)) :=
  rfl

/-- A client area that is not empty is as wide as what is left inside the border. -/
theorem clientBound_w (hasBorder : Bool) (hr : localR.IsInt16) :
    0 ≤ (clientBound hasBorder localR).w ∧ (clientBound hasBorder localR).w ≤ 32767 ∧
      (0 < (clientBound hasBorder localR).w →
        borderOf hasBorder + (clientBound hasBorder localR).w ≤ localR.w) := by
  have := int16_range hr.w_eq
  cases hasBorder <;>
    simp only [clientBound, borderOf, int16_eq, borderWidth, shadowCutIn, if_true, if_false,
      Bool.false_eq_true] <;>
    omega

theorem clientBound_h (hasBorder : Bool) (hr : localR.IsInt16) :
    0 ≤ (clientBound hasBorder localR).h ∧ (clientBound hasBorder localR).h ≤ 32767 ∧
      (0 < (clientBound hasBorder localR).h →
        borderOf hasBorder + titlebarHeight + (clientBound hasBorder localR).h ≤ localR.h) := by
  have := int16_range hr.h_eq
  cases hasBorder <;>
    simp only [clientBound, borderOf, int16_eq, borderWidth, shadowCutIn, titlebarHeight, if_true,
      if_false, Bool.false_eq_true] <;>
    omega

theorem mem_clientRgn (hr : localR.IsInt16) (hx : int16 origin.x = origin.x)
    (hy : int16 origin.y = origin.y) {win : Window} (hb : doesWindowShowBorder win = hasBorder)
    {p : Point} (hpx : 0 ≤ p.x) (hpy : 0 ≤ p.y) :
    (origin.x + p.x, origin.y + p.y) ∈ (win.setBounds localR origin).clientRgn ↔
      ClientShown hasBorder localR origin ∧
        (borderOf hasBorder ≤ p.x ∧
          p.x < borderOf hasBorder + (clientBound hasBorder localR).w) ∧
        (borderOf hasBorder + titlebarHeight ≤ p.y ∧
          p.y < borderOf hasBorder + titlebarHeight + (clientBound hasBorder localR).h) := by
  obtain ⟨hb0, hb3⟩ := borderOf_range hasBorder
  obtain ⟨hw0, hw, -⟩ := clientBound_w hasBorder hr
  obtain ⟨hh0, hh, -⟩ := clientBound_h hasBorder hr
  have htitle : titlebarHeight = 20 := rfl
  simp only [Window.setBounds, hb, cdCreateRectRegion]
  split
  next he =>
    simp only [Finset.notMem_empty, false_iff]
    rintro ⟨hs, -⟩
    have := hs.w_pos
    have := hs.h_pos
    omega
  next he =>
    rw [not_or, not_le, not_le] at he
    rw [Finset.mem_product, clientBound_x, clientBound_y,
      mem_side hx hr.x_eq (by omega) ⟨he.1, hw⟩ hpx, mem_side hy hr.y_eq (by omega) ⟨he.2, hh⟩ hpy]
    constructor
    · rintro ⟨⟨hright, hpx⟩, hbottom, hpy⟩
      exact ⟨⟨he.1, he.2, hright, hbottom⟩, hpx, hpy⟩
    · rintro ⟨hs, hpx, hpy⟩
      exact ⟨⟨hs.right_le, hpx⟩, hs.bottom_le, hpy⟩

/-- The answer and the region agree about the points of a window. -/
theorem hitsClient_setBounds {win : Window} (hb : doesWindowShowBorder win = hasBorder) :
    (win.setBounds localR origin).HitsClient ↔
      ∀ p : Point, (win.setBounds localR origin).Inside p →
        (wmIsPointInRect p.x p.y (clientBound hasBorder localR) = true ↔
          (origin.x + p.x, origin.y + p.y) ∈ (win.setBounds localR origin).clientRgn) := by
  unfold Window.HitsClient
  refine forall₂_congr fun p _ => ?_
  rw [handleHitTest_client, handleHitTest_nonclient, not_iff_not, and_self]
  simp only [Window.setBounds, hb]

theorem hitsClient_iff (hr : localR.IsInt16) (hx : int16 origin.x = origin.x)
    (hy : int16 origin.y = origin.y) {win : Window} (hb : doesWindowShowBorder win = hasBorder) :
    (win.setBounds localR origin).HitsClient ↔ ClientHitsFit hasBorder localR origin := by
  obtain ⟨hb0, hb3⟩ := borderOf_range hasBorder
  obtain ⟨hw0, -, hw⟩ := clientBound_w hasBorder hr
  obtain ⟨hh0, -, hh⟩ := clientBound_h hasBorder hr
  have htitle : titlebarHeight = 20 := rfl
  have hcx := clientBound_x hasBorder localR
  have hcy := clientBound_y hasBorder localR
  have := int16_range hr.x_eq
  have := int16_range hr.y_eq
  rw [int16_eq] at hcx hcy
  rw [hitsClient_setBounds hb]
  constructor
  · intro h
    refine ⟨fun hs => ?_, fun hs => ?_⟩
    · have hw := hw hs.w_pos
      have hh := hh hs.h_pos
      have := hs.w_pos
      have := hs.h_pos
      -- the first and the last point of the client area
      have hfirst := h ⟨borderOf hasBorder, borderOf hasBorder + titlebarHeight⟩
        ⟨by simp only; omega, by simp only [Window.setBounds]; omega, by simp only; omega,
          by simp only [Window.setBounds]; omega⟩
      have hlast := h ⟨borderOf hasBorder + (clientBound hasBorder localR).w - 1,
          borderOf hasBorder + titlebarHeight + (clientBound hasBorder localR).h - 1⟩
        ⟨by simp only; omega, by simp only [Window.setBounds]; omega, by simp only; omega,
          by simp only [Window.setBounds]; omega⟩
      rw [mem_clientRgn hr hx hy hb (by simp only; omega) (by simp only; omega)] at hfirst hlast
      simp only [wmIsPointInRect, decide_eq_true_iff] at hfirst hlast
      have hfirst := hfirst.mpr ⟨hs, by omega, by omega⟩
      have hlast := hlast.mpr ⟨hs, by omega, by omega⟩
      omega
    · -- a point that the bound has, in a window whose region has none
      by_contra hmeet
      simp only [ClientElsewhere, not_or, not_le] at hmeet
      obtain ⟨hmw, hmh, hx1, hx2, hy1, hy2⟩ := hmeet
      have hpoint := h ⟨max 0 (clientBound hasBorder localR).x,
          max 0 (clientBound hasBorder localR).y⟩
        ⟨by simp only; omega, by simp only [Window.setBounds]; omega, by simp only; omega,
          by simp only [Window.setBounds]; omega⟩
      rw [mem_clientRgn hr hx hy hb (by simp only; omega) (by simp only; omega)] at hpoint
      simp only [wmIsPointInRect, decide_eq_true_iff] at hpoint
      exact hs (hpoint.mp (by omega)).1
  · rintro ⟨hshown, hhidden⟩ p ⟨hp1, hp2, hp3, hp4⟩
    simp only [Window.setBounds] at hp2 hp4
    rw [mem_clientRgn hr hx hy hb hp1 hp3]
    simp only [wmIsPointInRect, decide_eq_true_iff]
    by_cases hs : ClientShown hasBorder localR origin
    · obtain ⟨hx0, hy0⟩ := hshown hs
      simp only [hs, true_and]
      omega
    · have he := hhidden hs
      simp only [ClientElsewhere] at he
      simp only [hs, false_and, iff_false]
      omega

end

/-! ## Moving -/

theorem setInternalWindowBounds_self (ws : Windows) (win : Nat) (place : Place) (localR : Rect) :
    setInternalWindowBounds ws win place localR win =
      (ws win).setBounds localR (accumulateScreenOrigin ws localR place.parents) :=
  Function.update_self ..

theorem isInt16_accumulateScreenOrigin (ws : Windows) (localR : Rect) (parents : List Nat) :
    int16 (accumulateScreenOrigin ws localR parents).x =
        (accumulateScreenOrigin ws localR parents).x ∧
      int16 (accumulateScreenOrigin ws localR parents).y =
        (accumulateScreenOrigin ws localR parents).y :=
  ⟨Int.bmod_bmod .., Int.bmod_bmod ..⟩

/-- A window gives the same answers after a move if its client region is shown at both places, or
at neither. -/
theorem handleHitTest_moved_iff {hasBorder : Bool} {localR moved : Rect} {origin origin' : Point}
    (hr : localR.IsInt16) (hr' : moved.IsInt16) (hx : int16 origin.x = origin.x)
    (hy : int16 origin.y = origin.y) (hx' : int16 origin'.x = origin'.x)
    (hy' : int16 origin'.y = origin'.y) (hw : moved.w = localR.w) (hh : moved.h = localR.h)
    {win later : Window} (hb : doesWindowShowBorder win = hasBorder)
    (hstyle : later.style = win.style) (hhits : (win.setBounds localR origin).HitsClient)
    (hhits' : (later.setBounds moved origin').HitsClient) :
    (∀ p : Point, (win.setBounds localR origin).Inside p →
        handleHitTest (later.setBounds moved origin') p =
          handleHitTest (win.setBounds localR origin) p) ↔
      (ClientShown hasBorder localR origin ↔ ClientShown hasBorder moved origin') := by
  have hb' : doesWindowShowBorder later = hasBorder := by
    rw [← hb, doesWindowShowBorder, doesWindowShowBorder, hstyle]
  have hcw : (clientBound hasBorder moved).w = (clientBound hasBorder localR).w := by
    rw [clientBound, clientBound, hw]
  have hch : (clientBound hasBorder moved).h = (clientBound hasBorder localR).h := by
    rw [clientBound, clientBound, hh]
  -- what an equal answer at a point says about the two regions
  have hpoint (p : Point) (hp : (win.setBounds localR origin).Inside p) :
      handleHitTest (later.setBounds moved origin') p =
          handleHitTest (win.setBounds localR origin) p ↔
        ((origin'.x + p.x, origin'.y + p.y) ∈ (later.setBounds moved origin').clientRgn ↔
          (origin.x + p.x, origin.y + p.y) ∈ (win.setBounds localR origin).clientRgn) := by
    have hp' : (later.setBounds moved origin').Inside p := by
      simpa only [Window.Inside, Window.setBounds, hw, hh] using hp
    rw [handleHitTest_congr (by simpa only [Window.setBounds] using hstyle)
      (by simpa only [Window.setBounds] using hw) (by simpa only [Window.setBounds] using hh),
      ← (hitsClient_setBounds hb).mp hhits p hp, ← (hitsClient_setBounds hb').mp hhits' p hp']
    simp only [Window.setBounds, hb, hb']
  obtain ⟨hb0, hb3⟩ := borderOf_range hasBorder
  obtain ⟨-, -, hcw'⟩ := clientBound_w hasBorder hr
  obtain ⟨-, -, hch'⟩ := clientBound_h hasBorder hr
  have htitle : titlebarHeight = 20 := rfl
  constructor
  · intro h
    by_cases hpos : 0 < (clientBound hasBorder localR).w ∧ 0 < (clientBound hasBorder localR).h
    · -- the first point of the client area tells whether the region is shown
      have hcw' := hcw' hpos.1
      have hch' := hch' hpos.2
      have hin : (win.setBounds localR origin).Inside
          ⟨borderOf hasBorder, borderOf hasBorder + titlebarHeight⟩ :=
        ⟨by simp only; omega, by simp only [Window.setBounds]; omega, by simp only; omega,
          by simp only [Window.setBounds]; omega⟩
      have hmem := (hpoint _ hin).mp (h _ hin)
      rw [mem_clientRgn hr hx hy hb hin.1 hin.2.2.1,
        mem_clientRgn hr' hx' hy' hb' hin.1 hin.2.2.1, hcw, hch] at hmem
      have hsides : (borderOf hasBorder ≤ borderOf hasBorder ∧
          borderOf hasBorder < borderOf hasBorder + (clientBound hasBorder localR).w) ∧
          (borderOf hasBorder + titlebarHeight ≤ borderOf hasBorder + titlebarHeight ∧
            borderOf hasBorder + titlebarHeight <
              borderOf hasBorder + titlebarHeight + (clientBound hasBorder localR).h) := by
        omega
      rwa [and_iff_left hsides, and_iff_left hsides, Iff.comm] at hmem
    · exact ⟨fun hs => absurd ⟨hs.w_pos, hs.h_pos⟩ hpos,
        fun hs => absurd ⟨hcw ▸ hs.w_pos, hch ▸ hs.h_pos⟩ hpos⟩
  · intro h p hp
    rw [hpoint p hp, mem_clientRgn hr hx hy hb hp.1 hp.2.2.1,
      mem_clientRgn hr' hx' hy' hb' hp.1 hp.2.2.1, hcw, hch, h]

/-- A bordered window without a parent, before its bounds are set -/
def bareWindow : Window where
  localWinBound := ⟨0, 0, 0, 0⟩
  localClientBound := ⟨0, 0, 0, 0⟩
  winRgn := ∅
  clientRgn := ∅
  visRgn := ∅
  dirtyRgn := ∅
  globalOffsetCached := ⟨0, 0⟩
  winclass := ⟨"", 0⟩
  style := 0

/-- The place of a window without relatives -/
def barePlace : Place := ⟨[], [], .null, .null⟩

/-- A window's hits are those of its client area at two places, and the same at both, exactly if
each place is at the corner of the window's parent or shows none of its client area, and they show
it both or neither. -/
theorem handleHitTest_setInternalWindowBounds (ws later : Windows) (win : Nat)
    (place place' : Place) (localR moved : Rect) (hr : localR.IsInt16) (hr' : moved.IsInt16)
    (hw : moved.w = localR.w) (hh : moved.h = localR.h)
    (hstyle : (later win).style = (ws win).style) :
    let hasBorder := doesWindowShowBorder (ws win)
    let here := setInternalWindowBounds ws win place localR win
    let there := setInternalWindowBounds later win place' moved win
    let origin := accumulateScreenOrigin ws localR place.parents
    let origin' := accumulateScreenOrigin later moved place'.parents
    (here.HitsClient ∧ there.HitsClient ∧
        ∀ p, here.Inside p → handleHitTest there p = handleHitTest here p) ↔
      ClientHitsFit hasBorder localR origin ∧ ClientHitsFit hasBorder moved origin' ∧
        (ClientShown hasBorder localR origin ↔ ClientShown hasBorder moved origin') := by
  intro hasBorder here there origin origin'
  obtain ⟨hx, hy⟩ := isInt16_accumulateScreenOrigin ws localR place.parents
  obtain ⟨hx', hy'⟩ := isInt16_accumulateScreenOrigin later moved place'.parents
  have hb' : doesWindowShowBorder (later win) = hasBorder := by
    simp only [hasBorder, doesWindowShowBorder, hstyle]
  have hhere : here = (ws win).setBounds localR origin := setInternalWindowBounds_self ..
  have hthere : there = (later win).setBounds moved origin' := setInternalWindowBounds_self ..
  rw [hhere, hthere, ← hitsClient_iff hr hx hy rfl, ← hitsClient_iff hr' hx' hy' hb']
  refine and_congr_right fun hhits => and_congr_right fun hhits' => ?_
  exact handleHitTest_moved_iff hr hr' hx hy hx' hy' hw hh rfl hstyle hhits hhits'

theorem handleHitTest_setInternalWindowBounds_corner :
    let here := setInternalWindowBounds (fun _ => bareWindow) 0 barePlace ⟨0, 0, 200, 150⟩ 0
    let there := setInternalWindowBounds (fun _ => bareWindow) 0 ⟨[1], [], .null, .null⟩
      ⟨0, 0, 200, 150⟩ 0
    here.HitsClient ∧ there.HitsClient ∧
      ∀ p, here.Inside p → handleHitTest there p = handleHitTest here p :=
  (handleHitTest_setInternalWindowBounds (fun _ => bareWindow) (fun _ => bareWindow) 0 barePlace
    ⟨[1], [], .null, .null⟩ ⟨0, 0, 200, 150⟩ ⟨0, 0, 200, 150⟩ ⟨rfl, rfl, rfl, rfl⟩
    ⟨rfl, rfl, rfl, rfl⟩ rfl rfl rfl).mpr
    ⟨⟨fun _ => ⟨rfl, rfl⟩, fun hs => absurd ⟨by decide, by decide, by decide, by decide⟩ hs⟩,
      ⟨fun _ => ⟨rfl, rfl⟩, fun hs => absurd ⟨by decide, by decide, by decide, by decide⟩ hs⟩,
      fun _ => ⟨by decide, by decide, by decide, by decide⟩,
      fun _ => ⟨by decide, by decide, by decide, by decide⟩⟩

/-- Away from the corner of its parent, a window denies a point of its client region. -/
theorem handleHitTest_away :
    let win := setInternalWindowBounds (fun _ => bareWindow) 0 barePlace ⟨100, 50, 12, 30⟩ 0
    win.Inside ⟨4, 23⟩ ∧
      (win.globalOffsetCached.x + 4, win.globalOffsetCached.y + 23) ∈ win.clientRgn ∧
      handleHitTest win ⟨4, 23⟩ &&& hitClient = 0 ∧
      handleHitTest win ⟨4, 23⟩ &&& hitNonclient ≠ 0 :=
  ⟨⟨by decide, by decide, by decide, by decide⟩, by decide, by decide, by decide⟩

end Nolrem.Wm
