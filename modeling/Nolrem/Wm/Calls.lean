import Nolrem.Wm.Window

/-!
# The calls of the window manager

`WmCreateWindow`, `WmChangePosition`, `WmRaiseToTop`, `WmInvalidateRegion` and `WmBeginPaint` of
`kernel/_WINMGR/window.c` on the whole state. The argument `lock` only says who takes the lock.
-/

namespace Nolrem.Wm

open Nolrem.Lib

/-! ## Relinking keeps the windows -/

theorem unlink_perm {target : Nat} {list : Siblings} {rest : Siblings × Siblings}
    (h : list.unlink target = some rest) :
    list.addrs.Perm (target :: (rest.1.addrs ++ rest.2.addrs)) := by
  induction list generalizing rest with
  | null => simp [Siblings.unlink] at h
  | win addr firstChild nextSibling _ ih =>
    simp only [Siblings.unlink] at h
    split at h
    next he =>
      cases h
      rw [← he]
      exact List.Perm.refl _
    next he =>
      split at h
      · simp at h
      next found hf =>
        cases h
        have hp := ih hf
        simp only [Siblings.addrs]
        have h1 := (hp.append_left firstChild.addrs).cons addr
        refine h1.trans ?_
        have h2 : (firstChild.addrs ++ target :: (found.1.addrs ++ found.2.addrs)).Perm
            (target :: (firstChild.addrs ++ (found.1.addrs ++ found.2.addrs))) :=
          List.perm_middle
        refine (h2.cons addr).trans ((List.Perm.swap _ _ _).trans (List.Perm.cons _ ?_))
        have h3 : (firstChild.addrs ++ (found.1.addrs ++ found.2.addrs)).Perm
            (found.1.addrs ++ (firstChild.addrs ++ found.2.addrs)) := by
          rw [← List.append_assoc, ← List.append_assoc]
          exact List.Perm.append_right _ List.perm_append_comm
        exact (h3.cons addr).trans List.perm_middle.symm

theorem relink_perm (target : Nat) (list : Siblings) :
    (list.relink target).addrs.Perm list.addrs := by
  unfold Siblings.relink
  split
  · exact List.Perm.refl _
  next rest h => exact (unlink_perm h).symm

theorem mapKids_perm {parent : Nat} {f : Siblings → Siblings} {new : List Nat} {list : Siblings}
    (hf : ∀ kids, (f kids).addrs.Perm (new ++ kids.addrs)) (h : parent ∈ list.addrs) :
    (list.mapKids parent f).addrs.Perm (new ++ list.addrs) := by
  have through (a : Nat) (l : List Nat) : (a :: (new ++ l)).Perm (new ++ a :: l) :=
    List.perm_middle.symm
  induction list with
  | null => simp [Siblings.addrs] at h
  | win addr firstChild nextSibling ih ih' =>
    unfold Siblings.mapKids
    split
    · have h1 := ((hf firstChild).append_right nextSibling.addrs).cons addr
      rw [List.append_assoc] at h1
      exact h1.trans (through addr _)
    next hp =>
      split
      next hm =>
        have h1 := ((ih hm).append_right nextSibling.addrs).cons addr
        rw [List.append_assoc] at h1
        exact h1.trans (through addr _)
      next hm =>
        have hn : parent ∈ nextSibling.addrs := by
          simp only [Siblings.addrs, List.mem_cons, List.mem_append] at h
          exact (h.resolve_left (Ne.symm hp)).resolve_left hm
        have h1 := ((ih' hn).append_left firstChild.addrs).cons addr
        have h2 : (firstChild.addrs ++ (new ++ nextSibling.addrs)).Perm
            (new ++ (firstChild.addrs ++ nextSibling.addrs)) := by
          rw [← List.append_assoc, ← List.append_assoc]
          exact List.perm_append_comm.append_right _
        exact h1.trans ((h2.cons addr).trans (through addr _))

def WindowTree.mapKids (parent : Nat) (f : Siblings → Siblings) (tree : WindowTree) : WindowTree :=
  if tree.root = parent then { tree with firstChild := f tree.firstChild }
  else { tree with firstChild := tree.firstChild.mapKids parent f }

theorem WindowTree.mapKids_perm {parent : Nat} {f : Siblings → Siblings} {new : List Nat}
    {tree : WindowTree} (hf : ∀ kids, (f kids).addrs.Perm (new ++ kids.addrs))
    (h : parent ∈ tree.addrs) : (tree.mapKids parent f).addrs.Perm (new ++ tree.addrs) := by
  unfold WindowTree.mapKids
  split
  · exact ((hf _).cons tree.root).trans List.perm_middle.symm
  next hp =>
    have hm : parent ∈ tree.firstChild.addrs := (List.mem_cons.mp h).resolve_left (Ne.symm hp)
    exact ((Wm.mapKids_perm hf hm).cons tree.root).trans List.perm_middle.symm

/-- Changes the children of `parent` in the tree that has it. -/
def mapKidsOf (parent : Nat) (f : Siblings → Siblings) : List WindowTree → List WindowTree
  | [] => []
  | tree :: trees =>
    if parent ∈ tree.addrs then tree.mapKids parent f :: trees
    else tree :: mapKidsOf parent f trees

theorem mapKidsOf_perm {parent : Nat} {f : Siblings → Siblings} (new : List Nat)
    {trees : List WindowTree} (hf : ∀ kids, (f kids).addrs.Perm (new ++ kids.addrs))
    (h : parent ∈ trees.flatMap WindowTree.addrs) :
    ((mapKidsOf parent f trees).flatMap WindowTree.addrs).Perm
      (new ++ trees.flatMap WindowTree.addrs) := by
  induction trees with
  | nil => simp at h
  | cons tree trees ih =>
    unfold mapKidsOf
    split
    next hp =>
      have h1 := (WindowTree.mapKids_perm hf hp).append_right (trees.flatMap WindowTree.addrs)
      rwa [List.append_assoc] at h1
    next hp =>
      rw [List.flatMap_cons, List.mem_append] at h
      have h1 := (ih (h.resolve_left hp)).append_left tree.addrs
      refine h1.trans ?_
      rw [List.flatMap_cons, ← List.append_assoc, ← List.append_assoc]
      exact List.perm_append_comm.append_right _

/-- A relinked list has the windows it had, also where nothing is relinked. -/
theorem relinked_perm (parent target : Nat) (trees : List WindowTree) :
    ((mapKidsOf parent (Siblings.relink target) trees).flatMap WindowTree.addrs).Perm
      (trees.flatMap WindowTree.addrs) := by
  by_cases h : parent ∈ trees.flatMap WindowTree.addrs
  · exact mapKidsOf_perm [] (relink_perm target) h
  · have he : mapKidsOf parent (Siblings.relink target) trees = trees := by
      induction trees with
      | nil => rfl
      | cons tree trees ih =>
        rw [List.flatMap_cons, List.mem_append, not_or] at h
        rw [mapKidsOf, if_neg h.1, ih h.2]
    rw [he]

/-! ## The calls -/

namespace WinMgr

def addrs (s : WinMgr) : List Nat := s.trees.flatMap WindowTree.addrs

/-- Where the window `target` is; an address of no window is nowhere. -/
def place (s : WinMgr) (target : Nat) : Place :=
  (placeOf s.trees target).getD ⟨[], [], .null, .null⟩

/-- `WmOpenWindowClass` -/
def openWindowClass (s : WinMgr) (classname : Option String) : Option WindowClass :=
  s.classes.find? fun wc => wc.name = classname.getD ".DEFAULT"

/-- The first half of `WmSetForegroundWindow`: the old foreground window is invalidated. -/
def leaveForeground (s : WinMgr) : Windows :=
  match s.foreground with
  | none => s.windows
  | some old => invalidateWindow s.windows old (s.place old)

/-- `WmSetForegroundWindow` on a window that is not `NULL` -/
def setForegroundWindow (s : WinMgr) (win : Nat) : WinMgr :=
  if s.foreground = some win then s
  else
    { s with
      windows := invalidateWindow s.leaveForeground win (s.place win)
      foreground := some win }

/-- The window `WmCreateWindow` has before it is given bounds -/
def freshWindow (wc : WindowClass) : Window where
  localWinBound := ⟨0, 0, 0, 0⟩
  localClientBound := ⟨0, 0, 0, 0⟩
  winRgn := ∅
  clientRgn := ∅
  visRgn := ∅
  dirtyRgn := ∅
  globalOffsetCached := ⟨0, 0⟩
  winclass := wc
  style := 0

/-- The regions that `WmCreateWindow` computes for a window linked at `place` -/
def createWindows (ws : Windows) (win : Nat) (place : Place) (wc : WindowClass) (localR : Rect) :
    Windows :=
  let ws := setInternalWindowBounds (Function.update ws win (freshWindow wc)) win place localR
  let covered := (ws win).winRgn
  let ws := if covered = ∅ then ws else invalidateExposedRegion ws place covered true
  let ws := ws.modify win fun w => { w with dirtyRgn := w.winRgn }
  recomputeVis ws win place

/-- The place of a new first child of `parent` -/
def childPlace (s : WinMgr) (parent : Option Nat) : Place :=
  match parent with
  | none => ⟨[], [], .null, .null⟩
  | some parent => ⟨parent :: (s.place parent).parents, [], .null, (s.place parent).firstChild⟩

/-- The new window at `win` is linked, and gets its regions. -/
def addWindow (s : WinMgr) (win : { a // a ∉ s.addrs }) (parent : Option { a // a ∈ s.addrs })
    (wc : WindowClass) (localR : Rect) : WinMgr where
  trees :=
    match parent with
    | none => ⟨win, .null⟩ :: s.trees
    | some parent => mapKidsOf parent (.win win .null) s.trees
  windows := createWindows s.windows win (s.childPlace (parent.map Subtype.val)) wc localR
  classes := s.classes
  foreground := s.foreground
  desktop := s.desktop
  nodup := by
    have h : (win.val :: s.trees.flatMap WindowTree.addrs).Nodup :=
      List.nodup_cons.mpr ⟨win.property, s.nodup⟩
    cases parent with
    | none => exact h
    | some parent =>
      exact (mapKidsOf_perm [win.val] (fun _ => List.Perm.refl _) parent.property).nodup_iff.mpr h

/-- `WmCreateWindow`, where `win` is what `AllocHeap` returns -/
def createWindow (s : WinMgr) (win : Option { a // a ∉ s.addrs })
    (parent : Option { a // a ∈ s.addrs }) (classname : Option String) (localR : Rect) : WinMgr :=
  match s.openWindowClass classname with
  | none => s
  | some wc =>
    match win with
    | none => s
    | some win =>
      if maxNestedWinDepth < (s.childPlace (parent.map Subtype.val)).parents.length then s
      else
        let s' := s.addWindow win parent wc localR
        if parent.map Subtype.val = s.desktop then s'.setForegroundWindow win else s'

/-- `WmChangePosition` -/
def wmChangePosition (s : WinMgr) (win : { a // a ∈ s.addrs }) (localR : Rect) : WinMgr :=
  { s with windows := changePosition s.windows win (s.place win) localR }

/-- The windows of `s`, with `target` the first child of `parent` -/
def raise (s : WinMgr) (parent target : Nat) : WinMgr :=
  { s with
    trees := mapKidsOf parent (Siblings.relink target) s.trees
    nodup := (relinked_perm parent target s.trees).nodup_iff.mpr s.nodup }

/-- The regions that `WmRaiseToTop` computes for a window now at `place` -/
def raiseWindows (ws : Windows) (win : Nat) (place : Place) : Windows :=
  let ws := recomputeVisibilityRecursive ws win place
  invalidateExposedRegion ws place (ws win).winRgn true

/-- The place of `target` once it is the first child of its parent -/
def raisedPlace (s : WinMgr) (parent target : Nat) : Place :=
  match (s.place parent).firstChild.unlink target with
  | none => s.place target
  | some rest => ⟨parent :: (s.place parent).parents, [], rest.1, rest.2⟩

/-- `WmRaiseToTop` -/
def wmRaiseToTop (s : WinMgr) (win : { a // a ∈ s.addrs }) : WinMgr :=
  match (s.place win).parents with
  | [] => s
  | parent :: _ =>
    if (s.place win).bigBros = [] then s
    else
      { s.raise parent win with
        windows := raiseWindows s.windows win (s.raisedPlace parent win) }

/-- `WmInvalidateRegion` -/
def wmInvalidateRegion (s : WinMgr) (win : { a // a ∈ s.addrs }) (rgn : Region) : WinMgr :=
  { s with windows := invalidateRegion s.windows win (s.place win) rgn }

end WinMgr

end Nolrem.Wm
