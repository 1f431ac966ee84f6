import Mathlib.Data.Finset.Prod
import Mathlib.Data.Finset.Range
import Mathlib.Data.List.Nodup
import Mathlib.Data.List.Perm.Basic
import Nolrem.Lib.Damage

/-!
# Windows and their regions

`kernel/_WINMGR/window.c`. A region is the set of its pixels, and `region.c` combines regions as
sets; `AllocHeap` always succeeds there. The links `first_child` and `next_sibling` of the windows
are a tree of addresses, and what `struct window` holds besides is found by address.
-/

namespace Nolrem.Wm

open Nolrem.Lib

/-! ## The data -/

abbrev Pixel := Int × Int

abbrev Region := Finset Pixel

/-- The conversion to `int16_t` -/
def int16 (n : Int) : Int := Int.bmod n 65536

/-- The integers from `lo` up to `hi`, without `hi` -/
def interval (lo hi : Int) : Finset Int :=
  (Finset.range (hi - lo).toNat).image fun k : Nat => lo + k

/-- `CdCreateRectRegion` -/
def cdCreateRectRegion (x y width height : Int) : Region :=
  if width ≤ 0 ∨ height ≤ 0 then ∅
  else interval (int16 x) (int16 (x + width)) ×ˢ interval (int16 y) (int16 (y + height))

/-- `struct rect` -/
structure Rect where
  x : Int
  y : Int
  w : Int
  h : Int
deriving DecidableEq, Repr

/-- `struct point` -/
structure Point where
  x : Int
  y : Int
deriving DecidableEq, Repr

/-- `struct window_class` without its procedure -/
structure WindowClass where
  name : String
  flags : Nat
deriving DecidableEq, Repr

/-- `WS_MAXIMISED` -/
def wsMaximised : Nat := 1

/-- `BORDER_WIDTH` -/
def borderWidth : Int := 3

/-- `SHADOW_CUT_IN` -/
def shadowCutIn : Int := 2

/-- `TITLEBAR_HEIGHT` -/
def titlebarHeight : Int := 20

/-- `MAX_NESTED_WIN_DEPTH` -/
def maxNestedWinDepth : Nat := 6

/-- The fields of `struct window` that the code below reads -/
structure Window where
  localWinBound : Rect
  localClientBound : Rect
  winRgn : Region
  clientRgn : Region
  visRgn : Region
  dirtyRgn : Region
  globalOffsetCached : Point
  winclass : WindowClass
  style : Nat

/-- What `win` shows, and what of it is to be painted. -/
def Window.damage (win : Window) : Damage Pixel := ⟨win.visRgn, win.dirtyRgn⟩

/-- Windows by their address -/
abbrev Windows := Nat → Window

/-- Changes the window at `win`. -/
def Windows.modify (ws : Windows) (win : Nat) (f : Window → Window) : Windows :=
  Function.update ws win (f (ws win))

/-- The list of windows that starts at a `first_child` or a `next_sibling` -/
inductive Siblings where
  | null
  | win (addr : Nat) (firstChild nextSibling : Siblings)
deriving DecidableEq, Repr

/-- The windows of the list, and all below them. -/
def Siblings.addrs : Siblings → List Nat
  | null => []
  | win addr firstChild nextSibling => addr :: (firstChild.addrs ++ nextSibling.addrs)

/-- A window in its tree: its `parent`s upwards, the windows in front of it, and its links. -/
structure Place where
  parents : List Nat
  bigBros : List Nat
  firstChild : Siblings
  nextSibling : Siblings

/-- Where `target` is, in a list of windows with these parents and with `bigBros` in front. -/
def Siblings.place (target : Nat) : List Nat → List Nat → Siblings → Option Place
  | _, _, null => none
  | parents, bigBros, win addr firstChild nextSibling =>
    if addr = target then some ⟨parents, bigBros, firstChild, nextSibling⟩
    else
      match place target (addr :: parents) [] firstChild with
      | some place => some place
      | none => place target parents (bigBros ++ [addr]) nextSibling

/-! ## Invalidation -/

/-- `CdUnionRegionInPlace(&win->dirty_rgn, rgn)` -/
def Window.invalidate (rgn : Region) (win : Window) : Window :=
  { win with dirtyRgn := win.dirtyRgn ∪ rgn }

/-- `WmInvalidateRegion` on each window of a list -/
def invalidateSiblings (rgn : Region) : Siblings → Windows → Windows
  | .null, ws => ws
  | .win addr firstChild nextSibling, ws =>
    invalidateSiblings rgn nextSibling
      (invalidateSiblings rgn firstChild (ws.modify addr (Window.invalidate rgn)))

/-- `WmInvalidateRegion` -/
def invalidateRegion (ws : Windows) (win : Nat) (place : Place) (rgn : Region) : Windows :=
  invalidateSiblings rgn place.firstChild (ws.modify win (Window.invalidate rgn))

/-- `WmInvalidateWindow` -/
def invalidateWindow (ws : Windows) (win : Nat) (place : Place) : Windows :=
  invalidateRegion ws win place (ws win).winRgn

/-! ## Exposing and covering -/

/-- `rgn` is covered or exposed: it leaves or joins `vis_rgn`, and joins `dirty_rgn`. -/
def Window.claim (cover : Bool) (rgn : Region) (win : Window) : Window :=
  { win with
    visRgn := if cover then win.visRgn \ rgn else win.visRgn ∪ rgn
    dirtyRgn := win.dirtyRgn ∪ rgn }

/-- `WmInvalidateExposedRegionOnWindow` -/
def invalidateExposedRegionOnWindow (ws : Windows) (win : Nat) (exposed : Region) (cover : Bool) :
    Windows :=
  let overlap := (ws win).winRgn ∩ exposed
  if overlap = ∅ then ws else ws.modify win (Window.claim cover overlap)

/-- What a pass leaves: its answer, the rest of `exposed_rgn`, and the windows. -/
structure Exposure where
  nowEmpty : Bool
  exposed : Region
  windows : Windows

/-- `WmApplyExposureToSubtree`, where `loop` is its loop over the children of `win` -/
def applyExposureToSubtree (cover : Bool) (loop : Region → Windows → Exposure) (win : Nat)
    (exposed : Region) (ws : Windows) : Exposure :=
  let claimed := (ws win).winRgn ∩ exposed
  if claimed = ∅ then ⟨false, exposed, ws⟩
  else
    let rest := exposed \ claimed
    let kids := loop claimed ws
    -- whatever the children did not want belongs to `win`
    let ws := if kids.exposed = ∅ then kids.windows
      else kids.windows.modify win (Window.claim cover kids.exposed)
    ⟨rest = ∅, rest, ws⟩

/-- `WmApplyExposureToSubtree` on the windows of a list, until one answers that nothing is left -/
def applyExposureToSiblings (cover : Bool) : Siblings → Region → Windows → Exposure
  | .null, exposed, ws => ⟨false, exposed, ws⟩
  | .win addr firstChild nextSibling, exposed, ws =>
    let first := applyExposureToSubtree cover
      (fun exposed ws => applyExposureToSiblings cover firstChild exposed ws) addr exposed ws
    if first.nowEmpty then first
    else applyExposureToSiblings cover nextSibling first.exposed first.windows

/-- Subtracts the siblings in front, and stops with `none` when nothing is left. -/
def behindBigBros (ws : Windows) : List Nat → Region → Option Region
  | [], exposed => some exposed
  | bro :: bros, exposed =>
    if exposed \ (ws bro).winRgn = ∅ then none
    else behindBigBros ws bros (exposed \ (ws bro).winRgn)

/-- The part of `WmInvalidateExposedRegion` from its second loop on -/
def invalidateBehind (ws : Windows) (place : Place) (exposed : Region) (cover : Bool) : Windows :=
  let bros := applyExposureToSiblings cover place.nextSibling exposed ws
  if bros.nowEmpty then bros.windows
  else
    match place.parents.head? with
    | none => bros.windows
    | some parent => invalidateExposedRegionOnWindow bros.windows parent bros.exposed cover

/-- `WmInvalidateExposedRegion` -/
def invalidateExposedRegion (ws : Windows) (place : Place) (exposed : Region) (cover : Bool) :
    Windows :=
  if cover then invalidateBehind ws place exposed cover
  else
    match behindBigBros ws place.bigBros exposed with
    | none => ws
    | some exposed => invalidateBehind ws place exposed cover

/-! ## Bounds and visibility -/

/-- `DoesWindowShowBorder` -/
def doesWindowShowBorder (win : Window) : Bool := win.style &&& wsMaximised = 0

/-- `WmAccumulateScreenOrigin` of a window at `local_r` with these parents -/
def accumulateScreenOrigin (ws : Windows) (localR : Rect) (parents : List Nat) : Point where
  x := int16 (parents.foldl (fun x p => x + (ws p).localWinBound.x) localR.x)
  y := int16 (parents.foldl (fun y p => y + (ws p).localWinBound.y) localR.y)

/-- The client area `SetInternalWindowBounds` leaves inside the border -/
def clientBound (hasBorder : Bool) (localR : Rect) : Rect :=
  let border := if hasBorder then borderWidth else 0
  let shadow := if hasBorder then shadowCutIn else 0
  { x := int16 (localR.x + border)
    y := int16 (localR.y + (border + titlebarHeight))
    w := int16 (max 0 (localR.w - border * 2 - shadow))
    h := int16 (max 0 (localR.h - border * 2 - titlebarHeight - shadow)) }

/-- `SetInternalWindowBounds` on a window whose corner is at `origin` -/
def Window.setBounds (localR : Rect) (origin : Point) (win : Window) : Window :=
  let client := clientBound (doesWindowShowBorder win) localR
  { win with
    localWinBound := localR
    localClientBound := client
    globalOffsetCached := origin
    winRgn := cdCreateRectRegion origin.x origin.y localR.w localR.h
    clientRgn := cdCreateRectRegion (origin.x + client.x - localR.x)
      (origin.y + client.y - localR.y) client.w client.h }

/-- `SetInternalWindowBounds` -/
def setInternalWindowBounds (ws : Windows) (win : Nat) (place : Place) (localR : Rect) : Windows :=
  ws.modify win (Window.setBounds localR (accumulateScreenOrigin ws localR place.parents))

/-- A loop of `ClipOurVisibility`: subtracts these windows until nothing is left. -/
def clipAgainst (ws : Windows) : List Nat → Region → Region
  | [], vis => vis
  | other :: others, vis =>
    if vis \ (ws other).winRgn = ∅ then ∅ else clipAgainst ws others (vis \ (ws other).winRgn)

/-- The windows of a list without those below them. -/
def Siblings.here : Siblings → List Nat
  | null => []
  | win addr _ nextSibling => addr :: nextSibling.here

/-- `ClipOurVisibility` on a window that starts with `vis` -/
def clipOurVisibility (ws : Windows) (place : Place) (vis : Region) : Region :=
  clipAgainst ws place.firstChild.here (clipAgainst ws place.bigBros vis)

/-- `vis_rgn` becomes `win_rgn`, clipped. -/
def recomputeVis (ws : Windows) (win : Nat) (place : Place) : Windows :=
  ws.modify win fun w => { w with visRgn := clipOurVisibility ws place w.winRgn }

/-! ## Moving -/

/-- `WmChangePosition` until the window is made dirty: its bounds, and the windows behind it. -/
def moveOver (ws : Windows) (win : Nat) (place : Place) (localR : Rect) : Windows :=
  let old := (ws win).winRgn
  let ws := setInternalWindowBounds ws win place localR
  let new := (ws win).winRgn
  let ws := if old \ new = ∅ then ws else invalidateExposedRegion ws place (old \ new) false
  if new \ old = ∅ then ws else invalidateExposedRegion ws place (new \ old) true

/-- `WmChangePosition`, where `loop` is its loop over the children of `win` -/
def changePositionWith (loop : Windows → Windows) (ws : Windows) (win : Nat) (place : Place)
    (localR : Rect) : Windows :=
  let ws := moveOver ws win place localR
  let ws := ws.modify win fun w => { w with dirtyRgn := w.winRgn }
  recomputeVis (loop ws) win place

/-- `WmChangePosition` on each window of a list, at its old local bounds -/
def changePositions : List Nat → List Nat → Siblings → Windows → Windows
  | _, _, .null, ws => ws
  | parents, bigBros, .win addr firstChild nextSibling, ws =>
    changePositions parents (bigBros ++ [addr]) nextSibling
      (changePositionWith (fun ws => changePositions (addr :: parents) [] firstChild ws) ws addr
        ⟨parents, bigBros, firstChild, nextSibling⟩ (ws addr).localWinBound)

/-- `WmChangePosition` -/
def changePosition (ws : Windows) (win : Nat) (place : Place) (localR : Rect) : Windows :=
  changePositionWith (changePositions (win :: place.parents) [] place.firstChild) ws win place localR

/-! ## Raising -/

/-- `WmRecomputeVisibilityRecursive` without its loop -/
def recomputeVisibility (ws : Windows) (win : Nat) (place : Place) : Windows :=
  let oldVis := (ws win).visRgn
  let ws := recomputeVis ws win place
  let newlyVisible := (ws win).visRgn \ oldVis
  if newlyVisible = ∅ then ws else ws.modify win (Window.invalidate newlyVisible)

/-- `WmRecomputeVisibilityRecursive` on each window of a list -/
def recomputeVisibilities : List Nat → List Nat → Siblings → Windows → Windows
  | _, _, .null, ws => ws
  | parents, bigBros, .win addr firstChild nextSibling, ws =>
    recomputeVisibilities parents (bigBros ++ [addr]) nextSibling
      (recomputeVisibilities (addr :: parents) [] firstChild
        (recomputeVisibility ws addr ⟨parents, bigBros, firstChild, nextSibling⟩))

/-- `WmRecomputeVisibilityRecursive` -/
def recomputeVisibilityRecursive (ws : Windows) (win : Nat) (place : Place) : Windows :=
  recomputeVisibilities (win :: place.parents) [] place.firstChild (recomputeVisibility ws win place)

/-- Unlinks `target` from a list: what is below it, and the list without it. -/
def Siblings.unlink (target : Nat) : Siblings → Option (Siblings × Siblings)
  | null => none
  | win addr firstChild nextSibling =>
    if addr = target then some (firstChild, nextSibling)
    else
      match unlink target nextSibling with
      | none => none
      | some rest => some (rest.1, win addr firstChild rest.2)

/-- `target` becomes the first of its list. -/
def Siblings.relink (target : Nat) (list : Siblings) : Siblings :=
  match list.unlink target with
  | none => list
  | some rest => win target rest.1 rest.2

/-- The children of `parent` -/
def Siblings.kidsOf (parent : Nat) : Siblings → Siblings
  | null => null
  | win addr firstChild nextSibling =>
    if addr = parent then firstChild
    else if parent ∈ firstChild.addrs then kidsOf parent firstChild
    else kidsOf parent nextSibling

/-- Changes the children of `parent`. -/
def Siblings.mapKids (parent : Nat) (f : Siblings → Siblings) : Siblings → Siblings
  | null => null
  | win addr firstChild nextSibling =>
    if addr = parent then win addr (f firstChild) nextSibling
    else if parent ∈ firstChild.addrs then win addr (mapKids parent f firstChild) nextSibling
    else win addr firstChild (mapKids parent f nextSibling)

/-! ## The window manager -/

/-- A window without a parent, and the windows below it -/
structure WindowTree where
  root : Nat
  firstChild : Siblings

/-- The root as a list of one window -/
def WindowTree.list (tree : WindowTree) : Siblings := .win tree.root tree.firstChild .null

def WindowTree.addrs (tree : WindowTree) : List Nat := tree.root :: tree.firstChild.addrs

def WindowTree.place (target : Nat) (tree : WindowTree) : Option Place :=
  tree.list.place target [] []

/-- The window `target` of one of the trees. -/
def placeOf (trees : List WindowTree) (target : Nat) : Option Place :=
  trees.findSome? (WindowTree.place target)

/-- The globals of the window manager. No window is in two places. -/
structure WinMgr where
  trees : List WindowTree
  windows : Windows
  classes : List WindowClass
  foreground : Option Nat
  desktop : Option Nat
  nodup : (trees.flatMap WindowTree.addrs).Nodup

end Nolrem.Wm
