import Nolrem.Wm.Passes

/-!
# Hit testing

`kernel/_WINMGR/hittest.c`. Its rectangles are those of `win_rgn` as long as no coordinate leaves
`int16_t`.
-/

namespace Nolrem.Wm

open Siblings

/-- `WmIsPointInRect` -/
def wmIsPointInRect (x y : Int) (r : Rect) : Bool :=
  decide (x ≥ r.x ∧ x < r.x + r.w ∧ y ≥ r.y ∧ y < r.y + r.h)

/-- `WmGetGlobalPosition` -/
def wmGetGlobalPosition (win : Window) : Rect where
  x := win.globalOffsetCached.x
  y := win.globalOffsetCached.y
  w := win.localWinBound.w
  h := win.localWinBound.h

/-- The loop of `WmGetDeepestAtPoint` -/
def deepestAtPoint (ws : Windows) (x y : Int) : Siblings → Nat → Nat
  | .null, retv => retv
  | .win addr firstChild nextSibling, retv =>
    if wmIsPointInRect x y (wmGetGlobalPosition (ws addr)) then deepestAtPoint ws x y firstChild addr
    else deepestAtPoint ws x y nextSibling retv

/-- `WmGetDeepestAtPoint`, where there is a desktop -/
def WinMgr.wmGetDeepestAtPoint (s : WinMgr) (x y : Int) : Option Nat :=
  s.desktop.map fun desktop => deepestAtPoint s.windows x y (s.place desktop).firstChild desktop

theorem deepestAtPoint_eq (ws : Windows) (x y : Int) (list : Siblings) (retv : Nat) :
    deepestAtPoint ws x y list retv =
      (list.owner fun u => wmIsPointInRect x y (wmGetGlobalPosition (ws u))).getD retv := by
  induction list generalizing retv with
  | null => rfl
  | win addr firstChild nextSibling ih ih' =>
    rw [deepestAtPoint, owner]
    split
    · rw [ih]
      rfl
    · exact ih' retv

/-! ## The same rectangles -/

theorem mem_interval {k lo hi : Int} : k ∈ interval lo hi ↔ lo ≤ k ∧ k < hi := by
  simp only [interval, Finset.mem_image, Finset.mem_range]
  constructor
  · rintro ⟨n, hn, rfl⟩
    omega
  · rintro ⟨h1, h2⟩
    exact ⟨(k - lo).toNat, by omega, by omega⟩

/-- What `SetInternalWindowBounds` leaves of `win_rgn`. -/
structure Window.Placed (w : Window) : Prop where
  x_eq : int16 w.globalOffsetCached.x = w.globalOffsetCached.x
  y_eq : int16 w.globalOffsetCached.y = w.globalOffsetCached.y
  winRgn_eq : w.winRgn = cdCreateRectRegion w.globalOffsetCached.x w.globalOffsetCached.y
    w.localWinBound.w w.localWinBound.h

/-- The lower right corner on the screen is one of `int16_t`. -/
structure Window.FitsInt16 (w : Window) : Prop where
  right_le : w.globalOffsetCached.x + w.localWinBound.w ≤ 32767
  bottom_le : w.globalOffsetCached.y + w.localWinBound.h ≤ 32767

theorem int16_add {n k : Int} (hn : int16 n = n) (hk : 0 < k) (hle : n + k ≤ 32767) :
    int16 (n + k) = n + k := by
  unfold int16 at *
  have := Int.le_bmod (x := n) (m := 65536) (by decide)
  apply Int.bmod_eq_of_le <;> omega

theorem Window.Placed.mem_winRgn {w : Window} (hw : w.Placed) (hf : w.FitsInt16) (p : Pixel) :
    p ∈ w.winRgn ↔ wmIsPointInRect p.1 p.2 (wmGetGlobalPosition w) = true := by
  obtain ⟨hx, hy, hr⟩ := hw
  obtain ⟨hright, hbottom⟩ := hf
  rw [hr, cdCreateRectRegion]
  simp only [wmIsPointInRect, wmGetGlobalPosition, decide_eq_true_iff, ge_iff_le]
  split
  next he =>
    simp only [Finset.notMem_empty, false_iff]
    omega
  next he =>
    rw [not_or, not_le, not_le] at he
    rw [Finset.mem_product, mem_interval, mem_interval, hx, hy, int16_add hx he.1 hright,
      int16_add hy he.2 hbottom]
    tauto

end Nolrem.Wm
