import Nolrem.Wm.Calls

/-!
# Nothing in sight is left stale

Every pass of the window manager only touches a window: what comes into sight joins `dirty_rgn`, and
nothing leaves `dirty_rgn`. `WmChangePosition` alone replaces `dirty_rgn`, by the whole window, and
the passes of its children that follow keep that.
-/

namespace Nolrem.Wm

open Nolrem.Lib

variable {ws : Windows} {win : Nat}

/-! ## Touching a window -/

/-- What the passes do to a window. -/
structure Window.Touched (a b : Window) : Prop where
  notStale : a.damage.NotStale b.damage
  dirty_subset : a.dirtyRgn ⊆ b.dirtyRgn
  winRgn_eq : b.winRgn = a.winRgn
  localWinBound_eq : b.localWinBound = a.localWinBound
  globalOffset_eq : b.globalOffsetCached = a.globalOffsetCached

namespace Window.Touched

theorem refl (a : Window) : a.Touched a :=
  ⟨Damage.NotStale.refl _, Finset.Subset.refl _, rfl, rfl, rfl⟩

theorem trans {a b c : Window} (hab : a.Touched b) (hbc : b.Touched c) : a.Touched c where
  notStale := hab.notStale.trans hbc.notStale
  dirty_subset := hab.dirty_subset.trans hbc.dirty_subset
  winRgn_eq := hbc.winRgn_eq.trans hab.winRgn_eq
  localWinBound_eq := hbc.localWinBound_eq.trans hab.localWinBound_eq
  globalOffset_eq := hbc.globalOffset_eq.trans hab.globalOffset_eq

end Window.Touched

theorem Window.touched_invalidate (rgn : Region) (w : Window) : w.Touched (w.invalidate rgn) where
  notStale := by
    apply Damage.notStale_of_grown
    · simp [Window.damage, Window.invalidate]
    · exact Finset.subset_union_left
  dirty_subset := Finset.subset_union_left
  winRgn_eq := rfl
  localWinBound_eq := rfl
  globalOffset_eq := rfl

theorem Window.touched_claim (cover : Bool) (rgn : Region) (w : Window) :
    w.Touched (w.claim cover rgn) where
  notStale := by
    apply Damage.notStale_of_grown
    · intro p hp
      obtain ⟨hs, hn⟩ := Finset.mem_sdiff.mp hp
      cases cover
      · -- exposed: a new pixel is one of `rgn`
        exact Finset.mem_union_right _ ((Finset.mem_union.mp hs).resolve_left hn)
      · exact absurd (Finset.mem_sdiff.mp hs).1 hn
    · exact Finset.subset_union_left
  dirty_subset := Finset.subset_union_left
  winRgn_eq := rfl
  localWinBound_eq := rfl
  globalOffset_eq := rfl

/-- Every window is at most touched. -/
def Touches (a b : Windows) : Prop := ∀ u, (a u).Touched (b u)

theorem Touches.refl (a : Windows) : Touches a a := fun u => Window.Touched.refl (a u)

theorem Touches.trans {a b c : Windows} (hab : Touches a b) (hbc : Touches b c) : Touches a c :=
  fun u => (hab u).trans (hbc u)

@[simp] theorem Windows.modify_self (f : Window → Window) : (ws.modify win f) win = f (ws win) :=
  Function.update_self ..

theorem Windows.modify_of_ne (f : Window → Window) {u : Nat} (h : u ≠ win) :
    (ws.modify win f) u = ws u :=
  Function.update_of_ne h ..

theorem touches_modify {f : Window → Window} (h : (ws win).Touched (f (ws win))) :
    Touches ws (ws.modify win f) := by
  intro u
  by_cases hu : u = win
  · subst hu
    rw [Windows.modify_self]
    exact h
  · rw [Windows.modify_of_ne f hu]
    exact Window.Touched.refl _

/-! ## The passes -/

theorem touches_invalidateSiblings (rgn : Region) (list : Siblings) :
    ∀ ws, Touches ws (invalidateSiblings rgn list ws) := by
  induction list with
  | null => exact Touches.refl
  | win addr firstChild nextSibling ih ih' =>
    intro ws
    have h := touches_modify (Window.touched_invalidate rgn (ws addr))
    exact h.trans ((ih _).trans (ih' _))

theorem touches_invalidateRegion (place : Place) (rgn : Region) :
    Touches ws (invalidateRegion ws win place rgn) :=
  (touches_modify (Window.touched_invalidate rgn (ws win))).trans
    (touches_invalidateSiblings rgn place.firstChild _)

theorem touches_applyExposureToSubtree {cover : Bool} {loop : Region → Windows → Exposure}
    (hl : ∀ exposed ws, Touches ws (loop exposed ws).windows) (win : Nat) (exposed : Region)
    (ws : Windows) : Touches ws (applyExposureToSubtree cover loop win exposed ws).windows := by
  unfold applyExposureToSubtree
  dsimp only
  split
  · exact Touches.refl ws
  · dsimp only
    split
    · exact hl _ ws
    · exact (hl _ ws).trans (touches_modify (Window.touched_claim cover _ _))

theorem touches_applyExposureToSiblings (cover : Bool) (list : Siblings) :
    ∀ exposed ws, Touches ws (applyExposureToSiblings cover list exposed ws).windows := by
  induction list with
  | null =>
    intro exposed ws
    exact Touches.refl ws
  | win addr firstChild nextSibling ih ih' =>
    intro exposed ws
    have h : Touches ws (applyExposureToSubtree cover _ addr exposed ws).windows :=
      touches_applyExposureToSubtree ih addr exposed ws
    rw [applyExposureToSiblings]
    split
    · exact h
    · exact h.trans (ih' _ _)

theorem touches_invalidateExposedRegionOnWindow (exposed : Region) (cover : Bool) :
    Touches ws (invalidateExposedRegionOnWindow ws win exposed cover) := by
  unfold invalidateExposedRegionOnWindow
  dsimp only
  split
  · exact Touches.refl ws
  · exact touches_modify (Window.touched_claim cover _ _)

theorem touches_invalidateBehind (place : Place) (exposed : Region) (cover : Bool) :
    Touches ws (invalidateBehind ws place exposed cover) := by
  have h := touches_applyExposureToSiblings cover place.nextSibling exposed ws
  unfold invalidateBehind
  dsimp only
  split
  · exact h
  · split
    · exact h
    · exact h.trans (touches_invalidateExposedRegionOnWindow _ cover)

theorem touches_invalidateExposedRegion (place : Place) (exposed : Region) (cover : Bool) :
    Touches ws (invalidateExposedRegion ws place exposed cover) := by
  unfold invalidateExposedRegion
  split
  · exact touches_invalidateBehind place exposed cover
  · split
    · exact Touches.refl ws
    · exact touches_invalidateBehind place _ cover

/-! ## Clipping -/

theorem clipAgainst_subset (others : List Nat) (vis : Region) :
    clipAgainst ws others vis ⊆ vis := by
  induction others generalizing vis with
  | nil => exact Finset.Subset.refl vis
  | cons other others ih =>
    unfold clipAgainst
    split
    · exact Finset.empty_subset vis
    · exact (ih _).trans Finset.sdiff_subset

theorem clipOurVisibility_subset (place : Place) (vis : Region) :
    clipOurVisibility ws place vis ⊆ vis :=
  (clipAgainst_subset _ _).trans (clipAgainst_subset _ _)

/-- A window that is dirty everywhere is so wherever it shows after it is clipped. -/
theorem shown_subset_recomputeVis (place : Place) (h : (ws win).winRgn ⊆ (ws win).dirtyRgn) :
    (recomputeVis ws win place win).damage.shown ⊆ (recomputeVis ws win place win).damage.dirty := by
  unfold recomputeVis
  rw [Windows.modify_self]
  exact (clipOurVisibility_subset place _).trans h

theorem recomputeVis_of_ne (place : Place) {u : Nat} (h : u ≠ win) :
    recomputeVis ws win place u = ws u :=
  Windows.modify_of_ne _ h

/-! ## `WmChangePosition` -/

/-- The passes over the windows behind, after the bounds are set. -/
theorem touches_moveOver (place : Place) (localR : Rect) :
    Touches (setInternalWindowBounds ws win place localR) (moveOver ws win place localR) := by
  have exposes (b c : Windows) (empty : Prop) [Decidable empty] (rgn : Region) (cover : Bool)
      (h : Touches b c) :
      Touches b (if empty then c else invalidateExposedRegion c place rgn cover) := by
    split
    · exact h
    · exact h.trans (touches_invalidateExposedRegion place rgn cover)
  exact exposes _ _ _ _ _ (exposes _ _ _ _ _ (Touches.refl _))

theorem touched_moveOver (place : Place) (localR : Rect) {u : Nat} (h : u ≠ win) :
    (ws u).Touched (moveOver ws win place localR u) := by
  have ht : (setInternalWindowBounds ws win place localR u).Touched
      (moveOver ws win place localR u) := touches_moveOver place localR u
  rwa [setInternalWindowBounds, Windows.modify_of_ne _ h] at ht

/-- Going from `a` to `b` no window gets stale, and those not among `addrs` are only touched. -/
def Moves (addrs : List Nat) (a b : Windows) : Prop :=
  ∀ u, (a u).damage.NotStale (b u).damage ∧ (u ∉ addrs → (a u).Touched (b u))

theorem Moves.trans {addrs addrs' : List Nat} {a b c : Windows} (hab : Moves addrs a b)
    (hbc : Moves addrs' b c) : Moves (addrs ++ addrs') a c := by
  intro u
  constructor
  · exact (hab u).1.trans (hbc u).1
  · intro hu
    rw [List.mem_append, not_or] at hu
    exact ((hab u).2 hu.1).trans ((hbc u).2 hu.2)

theorem moves_changePositionWith {loop : Windows → Windows} {addrs : List Nat}
    (hl : ∀ ws, Moves addrs ws (loop ws)) (ws : Windows) (hw : win ∉ addrs) (place : Place)
    (localR : Rect) :
    Moves (win :: addrs) ws (changePositionWith loop ws win place localR) := by
  intro u
  unfold changePositionWith
  by_cases hu : u = win
  · subst hu
    constructor
    · -- the whole window is dirty, and stays so while the children move
      apply Damage.notStale_of_shown_subset
      apply shown_subset_recomputeVis
      generalize hm : (moveOver ws u place localR).modify u (fun w =>
        { w with dirtyRgn := w.winRgn }) = moved
      have ht := (hl moved u).2 hw
      rw [ht.winRgn_eq]
      refine Finset.Subset.trans ?_ ht.dirty_subset
      rw [← hm, Windows.modify_self]
    · intro hn
      exact absurd (List.mem_cons_self ..) hn
  · have hm : (ws u).Touched (moveOver ws win place localR u) := touched_moveOver place localR hu
    have hk := hl ((moveOver ws win place localR).modify win fun w =>
      { w with dirtyRgn := w.winRgn }) u
    rw [Windows.modify_of_ne _ hu] at hk
    rw [recomputeVis_of_ne place hu]
    constructor
    · exact hm.notStale.trans hk.1
    · intro hn
      exact hm.trans (hk.2 fun h => hn (List.mem_cons_of_mem _ h))

theorem moves_changePositions (list : Siblings) (hd : list.addrs.Nodup) :
    ∀ parents bigBros ws, Moves list.addrs ws (changePositions parents bigBros list ws) := by
  induction list with
  | null =>
    intro parents bigBros ws u
    exact ⟨Damage.NotStale.refl _, fun _ => Window.Touched.refl _⟩
  | win addr firstChild nextSibling ih ih' =>
    intro parents bigBros ws
    obtain ⟨hn, hd⟩ := List.nodup_cons.mp hd
    obtain ⟨hf, hs, -⟩ := List.nodup_append.mp hd
    have hw : addr ∉ firstChild.addrs := fun h => hn (List.mem_append_left _ h)
    exact (moves_changePositionWith (ih hf _ _) ws hw _ _).trans (ih' hs _ _ _)

/-! ## `WmRaiseToTop` -/

theorem touches_recomputeVisibility (place : Place) :
    Touches ws (recomputeVisibility ws win place) := by
  intro u
  unfold recomputeVisibility
  by_cases hu : u = win
  · subst hu
    have hr : recomputeVis ws u place u =
        { ws u with visRgn := clipOurVisibility ws place (ws u).winRgn } := Windows.modify_self _
    -- what is newly visible is added to `dirty_rgn`, if there is any
    split
    next he =>
      rw [hr] at he ⊢
      constructor
      · apply Damage.notStale_of_grown
        · exact (Finset.subset_of_eq he).trans (Finset.empty_subset _)
        · exact Finset.Subset.refl _
      · exact Finset.Subset.refl _
      · rfl
      · rfl
      · rfl
    next =>
      rw [Windows.modify_self, hr]
      constructor
      · apply Damage.notStale_of_grown
        · exact Finset.subset_union_right
        · exact Finset.subset_union_left
      · exact Finset.subset_union_left
      · rfl
      · rfl
      · rfl
  · have hr : recomputeVis ws win place u = ws u := recomputeVis_of_ne place hu
    split
    · rw [hr]
      exact Window.Touched.refl _
    · rw [Windows.modify_of_ne _ hu, hr]
      exact Window.Touched.refl _

theorem touches_recomputeVisibilities (list : Siblings) :
    ∀ parents bigBros ws, Touches ws (recomputeVisibilities parents bigBros list ws) := by
  induction list with
  | null =>
    intro parents bigBros ws
    exact Touches.refl ws
  | win addr firstChild nextSibling ih ih' =>
    intro parents bigBros ws
    exact (touches_recomputeVisibility _).trans ((ih _ _ _).trans (ih' _ _ _))

theorem touches_raiseWindows (place : Place) :
    Touches ws (WinMgr.raiseWindows ws win place) :=
  ((touches_recomputeVisibility place).trans (touches_recomputeVisibilities _ _ _ _)).trans
    (touches_invalidateExposedRegion place _ true)

/-! ## `WmCreateWindow` -/

/-- The new window is dirty wherever it shows, and the others are touched. -/
theorem createWindows_spec (place : Place) (wc : WindowClass) (localR : Rect) (u : Nat) :
    (u = win → (WinMgr.createWindows ws win place wc localR u).damage.shown ⊆
      (WinMgr.createWindows ws win place wc localR u).damage.dirty) ∧
    (u ≠ win → (ws u).Touched (WinMgr.createWindows ws win place wc localR u)) := by
  unfold WinMgr.createWindows
  generalize hb : setInternalWindowBounds (Function.update ws win (WinMgr.freshWindow wc)) win place
    localR = bounded
  constructor
  · intro hu
    subst hu
    apply shown_subset_recomputeVis
    rw [Windows.modify_self]
  · intro hu
    rw [recomputeVis_of_ne place hu, Windows.modify_of_ne _ hu]
    have he : bounded u = ws u := by
      rw [← hb, setInternalWindowBounds, Windows.modify_of_ne _ hu, Function.update_of_ne hu]
    rw [← he]
    split
    · exact Window.Touched.refl _
    · exact touches_invalidateExposedRegion place _ true u

/-! ## The window manager -/

theorem sublist_of_place {target : Nat} {list : Siblings} {place : Place} :
    ∀ {parents bigBros}, list.place target parents bigBros = some place →
      (target :: place.firstChild.addrs).Sublist list.addrs := by
  induction list with
  | null => simp [Siblings.place]
  | win addr firstChild nextSibling ih ih' =>
    intro parents bigBros h
    simp only [Siblings.place] at h
    split at h
    next he =>
      cases h
      rw [← he]
      exact (List.sublist_append_left _ _).cons_cons addr
    next he =>
      refine List.Sublist.cons addr ?_
      split at h
      next found hf =>
        cases h
        exact (ih hf).trans (List.sublist_append_left _ _)
      next hf => exact (ih' h).trans (List.sublist_append_right _ _)

namespace WinMgr

variable (s : WinMgr)

/-- No window is below itself. -/
theorem nodup_place (win : Nat) : (win :: (s.place win).firstChild.addrs).Nodup := by
  unfold place
  cases h : placeOf s.trees win with
  | none => exact List.nodup_singleton win
  | some place =>
    obtain ⟨tree, hm, ht⟩ := List.exists_of_findSome?_eq_some h
    have hs := sublist_of_place ht
    have hd := (List.nodup_flatMap.mp s.nodup).1 tree hm
    simp only [WindowTree.list, Siblings.addrs, List.append_nil] at hs
    exact hd.sublist hs

/-- What a window shows, and what of it is to be painted; nothing where no window is. -/
def damage (win : Nat) : Damage Pixel :=
  if win ∈ s.addrs then (s.windows win).damage else ⟨∅, ∅⟩

theorem touches_setForegroundWindow (win : Nat) :
    Touches s.windows (s.setForegroundWindow win).windows := by
  unfold setForegroundWindow
  split
  · exact Touches.refl _
  · refine Touches.trans ?_ (touches_invalidateRegion _ _)
    unfold leaveForeground
    split
    · exact Touches.refl _
    · exact touches_invalidateRegion _ _

theorem addrs_setForegroundWindow (win : Nat) : (s.setForegroundWindow win).addrs = s.addrs := by
  unfold setForegroundWindow
  split <;> rfl

theorem mem_addrs_addWindow (win : { a // a ∉ s.addrs }) (parent : Option { a // a ∈ s.addrs })
    (wc : WindowClass) (localR : Rect) (u : Nat) :
    u ∈ (s.addWindow win parent wc localR).addrs ↔ u = win ∨ u ∈ s.addrs := by
  cases parent with
  | none => exact List.mem_cons
  | some parent =>
    have hf (kids : Siblings) :
        (Siblings.win win.val .null kids).addrs.Perm ([win.val] ++ kids.addrs) := List.Perm.refl _
    exact (mapKidsOf_perm [win.val] hf parent.property).mem_iff.trans List.mem_cons

theorem notStale_addWindow (win : { a // a ∉ s.addrs }) (parent : Option { a // a ∈ s.addrs })
    (wc : WindowClass) (localR : Rect) (u : Nat) :
    (s.damage u).NotStale ((s.addWindow win parent wc localR).damage u) := by
  generalize hp : s.childPlace (parent.map Subtype.val) = place
  have hc : (u = win → (createWindows s.windows win place wc localR u).damage.shown ⊆
        (createWindows s.windows win place wc localR u).damage.dirty) ∧
      (u ≠ win → (s.windows u).Touched (createWindows s.windows win place wc localR u)) :=
    createWindows_spec place wc localR u
  rw [← hp] at hc
  have ha := s.mem_addrs_addWindow win parent wc localR u
  unfold damage
  by_cases hu : u = win
  · rw [if_pos (ha.mpr (Or.inl hu))]
    exact Damage.notStale_of_shown_subset (hc.1 hu)
  · by_cases hm : u ∈ s.addrs
    · rw [if_pos hm, if_pos (ha.mpr (Or.inr hm))]
      exact (hc.2 hu).notStale
    · rw [if_neg hm, if_neg fun h => (ha.mp h).elim hu hm]
      exact Damage.NotStale.refl _

/-- A call that keeps the windows there are is judged by their records. -/
theorem notStale_of_addrs {s s' : WinMgr} (ha : ∀ u, u ∈ s'.addrs ↔ u ∈ s.addrs) (u : Nat)
    (h : (s.windows u).damage.NotStale (s'.windows u).damage) :
    (s.damage u).NotStale (s'.damage u) := by
  unfold damage
  simp only [ha]
  split
  · exact h
  · exact Damage.NotStale.refl _

theorem notStale_createWindow (win : Option { a // a ∉ s.addrs })
    (parent : Option { a // a ∈ s.addrs }) (classname : Option String) (localR : Rect) (u : Nat) :
    (s.damage u).NotStale ((s.createWindow win parent classname localR).damage u) := by
  unfold createWindow
  split
  · exact Damage.NotStale.refl _
  · split
    · exact Damage.NotStale.refl _
    · split
      · exact Damage.NotStale.refl _
      next wc _ _ win _ =>
        have ha := s.notStale_addWindow win parent wc localR u
        dsimp only
        split
        · refine ha.trans (notStale_of_addrs (fun _ => ?_) u ?_)
          · rw [addrs_setForegroundWindow]
          · exact (touches_setForegroundWindow _ _ u).notStale
        · exact ha

theorem notStale_wmChangePosition (win : { a // a ∈ s.addrs }) (localR : Rect) (u : Nat) :
    (s.damage u).NotStale ((s.wmChangePosition win localR).damage u) := by
  obtain ⟨hw, hd⟩ := List.nodup_cons.mp (s.nodup_place win)
  apply notStale_of_addrs
  · exact fun _ => Iff.rfl
  · exact (moves_changePositionWith (moves_changePositions _ hd _ _) s.windows hw _ localR u).1

theorem notStale_wmRaiseToTop (win : { a // a ∈ s.addrs }) (u : Nat) :
    (s.damage u).NotStale ((s.wmRaiseToTop win).damage u) := by
  unfold wmRaiseToTop
  split
  · exact Damage.NotStale.refl _
  · split
    · exact Damage.NotStale.refl _
    · apply notStale_of_addrs
      · exact fun _ => (relinked_perm _ _ _).mem_iff
      · exact (touches_raiseWindows _ u).notStale

theorem notStale_wmInvalidateRegion (win : { a // a ∈ s.addrs }) (rgn : Region) (u : Nat) :
    (s.damage u).NotStale ((s.wmInvalidateRegion win rgn).damage u) := by
  apply notStale_of_addrs
  · exact fun _ => Iff.rfl
  · exact (touches_invalidateRegion _ _ u).notStale

end WinMgr

/-- A call of the window manager, on windows it has -/
inductive WinCall (s : WinMgr) where
  | create (win : Option { a // a ∉ s.addrs }) (parent : Option { a // a ∈ s.addrs })
      (classname : Option String) (localR : Rect)
  | changePosition (win : { a // a ∈ s.addrs }) (localR : Rect)
  | raiseToTop (win : { a // a ∈ s.addrs })
  | invalidateRegion (win : { a // a ∈ s.addrs }) (rgn : Region)

def WinCall.run {s : WinMgr} : WinCall s → WinMgr
  | create win parent classname localR => s.createWindow win parent classname localR
  | changePosition win localR => s.wmChangePosition win localR
  | raiseToTop win => s.wmRaiseToTop win
  | invalidateRegion win rgn => s.wmInvalidateRegion win rgn

theorem WinCall.notStale {s : WinMgr} (call : WinCall s) (u : Nat) :
    (s.damage u).NotStale (call.run.damage u) := by
  cases call with
  | create win parent classname localR => exact s.notStale_createWindow win parent classname localR u
  | changePosition win localR => exact s.notStale_wmChangePosition win localR u
  | raiseToTop win => exact s.notStale_wmRaiseToTop win u
  | invalidateRegion win rgn => exact s.notStale_wmInvalidateRegion win rgn u

/-! ## `WmBeginPaint` -/

end Nolrem.Wm
