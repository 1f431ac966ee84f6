import Nolrem.Lib.Transition
import Nolrem.Wm.HitTest
import Nolrem.Wm.Parted

/-!
# Windows partition the desktop

Every pixel of the desktop is in the `vis_rgn` of the window that `WmGetDeepestAtPoint` finds there,
and of no other, as long as each call shows windows only where they are in sight.
-/

namespace Nolrem.Wm

open Nolrem.Lib Siblings

variable {ws : Windows} {win : Nat} {p : Pixel} {place : Place} {localR : Rect}

/-! ## Bounds -/

/-- `SetInternalWindowBounds` on each window of a list, at its old local bounds -/
def placeSiblings : List Nat → Siblings → Windows → Windows
  | _, .null, ws => ws
  | parents, .win addr firstChild nextSibling, ws =>
    placeSiblings parents nextSibling
      (placeSiblings (addr :: parents) firstChild
        (setInternalWindowBounds ws addr ⟨parents, [], .null, .null⟩ (ws addr).localWinBound))

/-- The bounds after `WmChangePosition` -/
def placeMoved (ws : Windows) (win : Nat) (place : Place) (localR : Rect) : Windows :=
  placeSiblings (win :: place.parents) place.firstChild
    (setInternalWindowBounds ws win place localR)

/-- Windows at the same place of the screen -/
structure Window.SameBounds (a b : Window) : Prop where
  winRgn_eq : b.winRgn = a.winRgn
  localWinBound_eq : b.localWinBound = a.localWinBound
  globalOffset_eq : b.globalOffsetCached = a.globalOffsetCached

def SameBounds (a b : Windows) : Prop := ∀ u, (a u).SameBounds (b u)

theorem SameBounds.refl (a : Windows) : SameBounds a a := fun _ => ⟨rfl, rfl, rfl⟩

theorem SameBounds.trans {a b c : Windows} (hab : SameBounds a b) (hbc : SameBounds b c) :
    SameBounds a c := fun u =>
  ⟨(hbc u).winRgn_eq.trans (hab u).winRgn_eq,
    (hbc u).localWinBound_eq.trans (hab u).localWinBound_eq,
    (hbc u).globalOffset_eq.trans (hab u).globalOffset_eq⟩

theorem Window.SameBounds.placed {a b : Window} (h : a.SameBounds b) (ha : a.Placed) :
    b.Placed := by
  obtain ⟨hr, hl, ho⟩ := h
  constructor
  · rw [ho, ha.x_eq]
  · rw [ho, ha.y_eq]
  · rw [hr, ho, hl, ha.winRgn_eq]

/-- The bounds of a window come from the bounds of its parents. -/
theorem SameBounds.setInternalWindowBounds {a b : Windows} (h : SameBounds a b) {place' : Place}
    (hp : place'.parents = place.parents) :
    SameBounds (setInternalWindowBounds a win place localR)
      (setInternalWindowBounds b win place' localR) := by
  have ho : accumulateScreenOrigin b localR place'.parents =
      accumulateScreenOrigin a localR place.parents := by
    unfold accumulateScreenOrigin
    simp only [hp, (h _).localWinBound_eq]
  intro u
  unfold Wm.setInternalWindowBounds
  by_cases hu : u = win
  · subst hu
    rw [Windows.modify_self, Windows.modify_self, ho]
    exact ⟨rfl, rfl, rfl⟩
  · rw [Windows.modify_of_ne _ hu, Windows.modify_of_ne _ hu]
    exact h u

/-- A window whose visibility a call recomputes, with that of the windows below it -/
structure Shown where
  target : Nat
  place : Place
  -- the windows at their new bounds
  bounds : Windows
  -- what a move leaves
  uncovered : Region

/-- The window that a call shows, unless the call does nothing -/
def WinCall.shown {s : WinMgr} : WinCall s → Option Shown
  | create win parent classname localR =>
    match s.openWindowClass classname, win with
    | some wc, some win =>
      let place := s.childPlace (parent.map Subtype.val)
      if maxNestedWinDepth < place.parents.length then none
      else
        some ⟨win, place, setInternalWindowBounds
          (Function.update s.windows win (WinMgr.freshWindow wc)) win place localR, ∅⟩
    | _, _ => none
  | changePosition win localR =>
    some ⟨win, s.place win, placeMoved s.windows win (s.place win) localR, (s.windows win).winRgn⟩
  | raiseToTop win =>
    match (s.place win).parents with
    | [] => none
    | parent :: _ =>
      if (s.place win).bigBros = [] then none
      else some ⟨win, s.raisedPlace parent win, s.windows, ∅⟩
  | invalidateRegion _ _ => none

/-- The windows are those of `tree`, the desktop is its root, and each pixel of the desktop is shown
by its owner only. -/
structure WinMgr.OnScreen (s : WinMgr) (tree : WindowTree) : Prop where
  trees_eq : s.trees = [tree]
  desktop_eq : s.desktop = some tree.root
  placed : ∀ u ∈ s.addrs, (s.windows u).Placed
  parted : ∀ p, hitAt s.windows p tree.root = true →
    Parted (hitAt s.windows p) (fun u => p ∈ (s.windows u).visRgn) tree.list

variable {s : WinMgr} {tree : WindowTree}

theorem list_addrs (tree : WindowTree) : tree.list.addrs = tree.addrs := by
  simp [WindowTree.list, WindowTree.addrs, addrs]

namespace WinMgr.OnScreen

theorem addrs_eq (h : s.OnScreen tree) : s.addrs = tree.list.addrs := by
  rw [list_addrs, WinMgr.addrs, h.trees_eq, List.flatMap_singleton]

theorem nodup (h : s.OnScreen tree) : tree.list.addrs.Nodup :=
  h.addrs_eq ▸ s.nodup

theorem place_eq (h : s.OnScreen tree) (hm : win ∈ s.addrs) :
    tree.list.place win [] [] = some (s.place win) := by
  rw [h.addrs_eq] at hm
  obtain ⟨place, hp⟩ := @place_isSome tree.list win [] [] hm
  have : placeOf s.trees win = some place := by
    rw [h.trees_eq, placeOf, List.findSome?_cons, WindowTree.place, hp]
  rw [WinMgr.place, this, hp]
  rfl

/-- A window is the root, or one of the children of its parent. -/
theorem place_cases (h : s.OnScreen tree) (hm : win ∈ s.addrs) :
    (win = tree.root ∧ s.place win = ⟨[], [], tree.firstChild, .null⟩) ∨
    ∃ parent rest, (s.place win).parents = parent :: rest ∧ parent ∈ tree.list.addrs ∧
      win ≠ tree.root ∧ Splits win (s.place win).firstChild (s.place win).nextSibling
        (s.place win).bigBros (tree.list.kidsOf parent) := by
  have hp := h.place_eq hm
  by_cases hw : win = tree.root
  · left
    refine ⟨hw, ?_⟩
    rw [WindowTree.list, Siblings.place, if_pos hw.symm] at hp
    exact (Option.some.inj hp).symm
  · right
    rcases place_spec h.nodup hp with ⟨-, bs, -, hs⟩ | ⟨parent, rest, hpar, hmem, hs⟩
    · -- the root has no siblings
      cases bs with
      | nil =>
        have he : tree.list = _ := hs
        rw [WindowTree.list, Siblings.win.injEq] at he
        exact absurd he.1.symm hw
      | cons bro bros => cases bros <;> exact absurd hs.2 (by simp [Splits])
    · exact ⟨parent, rest, hpar, hmem, hw, hs⟩

end WinMgr.OnScreen

/-! ### `WmChangePosition` -/

/-- In a partitioned desktop with coordinates in `int16_t`, `vis_rgn` is what hit testing finds. -/
theorem WinMgr.OnScreen.hit (h : s.OnScreen tree) (hf : ∀ u ∈ s.addrs, (s.windows u).FitsInt16)
    (hroot : p ∈ (s.windows tree.root).winRgn) {u : Nat} (hu : u ∈ s.addrs) :
    p ∈ (s.windows u).visRgn ↔ s.wmGetDeepestAtPoint p.1 p.2 = some u := by
  refine (h.parted p (hitAt_eq_true.mpr hroot) u (h.addrs_eq ▸ hu)).trans ?_
  have hsame : (tree.list.owner fun u =>
      wmIsPointInRect p.1 p.2 (wmGetGlobalPosition (s.windows u))) =
      tree.list.owner (hitAt s.windows p) := by
    apply owner_congr
    intro x hx
    rw [← h.addrs_eq] at hx
    rw [Bool.eq_iff_iff, hitAt_eq_true, (h.placed x hx).mem_winRgn (hf x hx)]
  have hrm : tree.root ∈ s.addrs := by
    rw [h.addrs_eq]
    exact List.mem_cons_self
  have hplace : (s.place tree.root).firstChild = tree.firstChild := by
    rcases h.place_cases hrm with ⟨-, hp⟩ | ⟨-, -, -, -, hne, -⟩
    · rw [hp]
    · exact absurd rfl hne
  have hr := ((h.placed _ hrm).mem_winRgn (hf _ hrm) p).mp hroot
  rw [← hsame, wmGetDeepestAtPoint, h.desktop_eq, Option.map_some, hplace, deepestAtPoint_eq,
    WindowTree.list, owner, if_pos hr]

instance (w : Window) : Decidable w.FitsInt16 :=
  decidable_of_iff (w.globalOffsetCached.x + w.localWinBound.w ≤ 32767 ∧
    w.globalOffsetCached.y + w.localWinBound.h ≤ 32767) ⟨fun h => ⟨h.1, h.2⟩, fun h => ⟨h.1, h.2⟩⟩

end Nolrem.Wm
