import Nolrem.Core.Obj

/-!
# Runs of `SysRef`

The user's references of an object, over whole runs of calls and of kernel references.
-/

namespace Nolrem.Core

variable {w : World} {n u d : Nat} {gone locked : Bool}

/-! ## The object in order -/

/-- An object with `n` kernel references that nobody has accessed too late. -/
def World.inOrder (w : World) (n u : Nat) (gone locked : Bool) (d : Nat) : World :=
  { obj :=
      { refCount := 1073741824 + n
        userRefCount := u
        userGone := gone
        userType := w.obj.userType
        locked }
    cleanups := if n = 0 then 1 else 0
    late := false
    drops := d
    held := w.held
    calls := w.calls }

theorem userGone_inOrder : (w.inOrder n u gone locked d).obj.userGone = gone := rfl

theorem userRefCount_inOrder : (w.inOrder n u gone locked d).obj.userRefCount = u := rfl

theorem keGetRefCount_inOrder (hn : n < 134217728) :
    (w.inOrder n u gone locked d).obj.keGetRefCount = n := by
  simp only [World.inOrder, UserObj.keGetRefCount]
  omega

theorem touch_inOrder (hn : 0 < n) :
    (w.inOrder n u gone locked d).touch = w.inOrder n u gone locked d := by
  have h0 : n ≠ 0 := by omega
  simp [World.touch, World.inOrder, h0]

theorem refObject_inOrder (hn : 0 < n) (hlt : n < 134217728) :
    (w.inOrder n u gone locked d).refObject = w.inOrder (n + 1) u gone locked d := by
  have hcount : (1073741824 + n + 1) % 4294967296 = 1073741824 + (n + 1) := by omega
  have h0 : n ≠ 0 := by omega
  unfold World.refObject
  rw [touch_inOrder hn]
  simp [World.inOrder, hcount, h0]

theorem derefObject_inOrder (hlt : n + 1 < 134217728) :
    (w.inOrder (n + 1) u gone locked d).derefObject = w.inOrder n u gone locked d := by
  have hcount : (1073741824 + (n + 1) + 4294967295) % 4294967296 = 1073741824 + n := by omega
  unfold World.derefObject
  rw [touch_inOrder (Nat.succ_pos n)]
  simp only [World.inOrder, hcount, UserObj.keGetRefCount, UserObj.keGetObjectType,
    objtypeUserObj, World.cleanupUserObj, World.touch]
  by_cases h0 : n = 0
  · subst h0
    rfl
  · have hm : (1073741824 + n) % 134217728 ≠ 0 := by omega
    simp [hm, h0]

theorem acquire_inOrder (hn : 0 < n) :
    (w.inOrder n u gone locked d).acquire = w.inOrder n u gone true d := by
  unfold World.acquire
  rw [touch_inOrder hn]
  rfl

theorem release_inOrder (hn : 0 < n) :
    (w.inOrder n u gone locked d).release = w.inOrder n u gone false d := by
  unfold World.release
  rw [touch_inOrder hn]
  rfl

theorem userRef_inOrder (hn : 0 < n) :
    (w.inOrder n u gone locked d).userRef = w.inOrder n ((u + 1) % 256) gone false d := by
  unfold World.userRef
  rw [acquire_inOrder hn]
  exact release_inOrder hn

theorem countDown_inOrder :
    (w.inOrder n u gone locked d).countDown = w.inOrder n ((u + 255) % 256) gone locked d := rfl

theorem markGone_inOrder :
    (w.inOrder n u gone locked d).markGone = w.inOrder n u true locked d := rfl

theorem giveUp_inOrder (hlt : n + 1 < 134217728) :
    (w.inOrder (n + 1) u gone locked d).giveUp = w.inOrder n u true locked (d + 1) := by
  unfold World.giveUp
  rw [markGone_inOrder, derefObject_inOrder hlt]
  rfl

/-- A `UserDeref` that does not give up the kernel reference. -/
theorem userDeref_inOrder_keep (hn : 0 < n) (hk : gone = true ∨ (u + 255) % 256 ≠ 0) :
    (w.inOrder n u gone locked d).userDeref = w.inOrder n ((u + 255) % 256) gone false d := by
  unfold World.userDeref
  rw [acquire_inOrder hn, countDown_inOrder]
  dsimp only
  rcases hk with hk | hk
  · rw [if_pos (userGone_inOrder.trans hk)]
    exact release_inOrder hn
  · rw [if_neg fun h0 => hk (userRefCount_inOrder.symm.trans h0), ite_self]
    exact release_inOrder hn

/-- One that does. The system call has a reference of its own, so the lock can be released. -/
theorem userDeref_inOrder_drop (hn : 0 < n) (hlt : n + 1 < 134217728) (hu : (u + 255) % 256 = 0) :
    (w.inOrder (n + 1) u false locked d).userDeref = w.inOrder n 0 true false (d + 1) := by
  unfold World.userDeref
  rw [acquire_inOrder (Nat.succ_pos n), countDown_inOrder, hu]
  dsimp only
  rw [if_neg (Bool.eq_false_iff.mp userGone_inOrder), if_pos userRefCount_inOrder,
    giveUp_inOrder hlt]
  exact release_inOrder hn

/-! ## One system call -/

theorem sysRef_eq (w : World) (type : Nat) :
    w.sysRef type =
      World.derefObject
        (if type = typeRef then w.refObject.userRef
        else if type = typeDeref then w.refObject.userDeref
        else w.refObject) := by
  simp only [World.sysRef, World.validateUserObjectAndAtomicallyRef, isValidUserOwnedObject,
    if_true]

theorem sysRef_ref (hn : 0 < n) (hlt : n + 1 < 134217728) :
    (w.inOrder n u gone locked d).sysRef typeRef = w.inOrder n ((u + 1) % 256) gone false d := by
  rw [sysRef_eq, if_pos rfl, refObject_inOrder hn (by omega), userRef_inOrder (Nat.succ_pos n)]
  exact derefObject_inOrder hlt

theorem sysRef_deref_keep (hn : 0 < n) (hlt : n + 1 < 134217728)
    (hk : gone = true ∨ (u + 255) % 256 ≠ 0) :
    (w.inOrder n u gone locked d).sysRef typeDeref =
      w.inOrder n ((u + 255) % 256) gone false d := by
  rw [sysRef_eq, if_neg (by decide), if_pos rfl, refObject_inOrder hn (by omega),
    userDeref_inOrder_keep (Nat.succ_pos n) hk]
  exact derefObject_inOrder hlt

theorem sysRef_deref_drop (hlt : n + 2 < 134217728) (hu : (u + 255) % 256 = 0) :
    (w.inOrder (n + 1) u false locked d).sysRef typeDeref = w.inOrder n 0 true false (d + 1) := by
  rw [sysRef_eq, if_neg (by decide), if_pos rfl, refObject_inOrder (Nat.succ_pos n) (by omega),
    userDeref_inOrder_drop (Nat.succ_pos n) (by omega) hu]
  exact derefObject_inOrder (by omega)

theorem sysRef_other {type : Nat} (hr : type ≠ typeRef) (hd : type ≠ typeDeref) (hn : 0 < n)
    (hlt : n + 1 < 134217728) :
    (w.inOrder n u gone locked d).sysRef type = w.inOrder n u gone locked d := by
  rw [sysRef_eq, if_neg hr, if_neg hd, refObject_inOrder hn (by omega)]
  exact derefObject_inOrder hlt

/-! ## An access that is too late stays -/

theorem late_touch (h : w.late = true) : w.touch.late = true := by
  simp only [World.touch, h, Bool.true_or]

theorem late_derefObject (h : w.late = true) : w.derefObject.late = true := by
  simp only [World.derefObject, World.cleanupUserObj, World.touch, h, Bool.true_or]
  split_ifs <;> rfl

theorem late_userRef (h : w.late = true) : w.userRef.late = true := by
  simp only [World.userRef, World.acquire, World.release, World.touch, h, Bool.true_or]

theorem late_countDrop : w.countDrop.late = w.late := rfl

theorem late_giveUp (h : w.late = true) : w.giveUp.late = true := by
  have hg : w.markGone.late = true := h
  unfold World.giveUp
  rw [late_countDrop]
  exact late_derefObject hg

theorem late_acquire (h : w.late = true) : w.acquire.late = true := by
  simp only [World.acquire, late_touch h]

theorem late_release (h : w.late = true) : w.release.late = true := by
  simp only [World.release, late_touch h]

theorem late_userDeref (h : w.late = true) : w.userDeref.late = true := by
  have hc : w.acquire.countDown.late = true := late_acquire h
  unfold World.userDeref
  refine late_release ?_
  split_ifs
  · exact hc
  · exact late_giveUp hc
  · exact hc

theorem late_sysRef (type : Nat) (h : w.refObject.late = true) : (w.sysRef type).late = true := by
  rw [sysRef_eq]
  refine late_derefObject ?_
  split_ifs
  · exact late_userRef h
  · exact late_userDeref h
  · exact h

/-! ## What a run keeps -/

/--
The object is in order, and the eight bits of the user's count are those of the true number until
the drop.
-/
structure Inv (w : World) (u : Nat) (gone locked : Bool) : Prop where
  eq : w = w.inOrder (w.held + (!gone).toNat) u gone locked gone.toNat
  room : w.held + (!gone).toNat + 1 < 134217728
  gone_iff : gone = true ↔ Overdrawn w.calls
  user : gone = false → u = userRefs w.calls % 256

theorem Inv.kept (h : Inv w u gone locked) : Kept w := by
  have hd : w.drops = gone.toNat := congrArg World.drops h.eq
  refine ⟨fun ho => ?_, fun hno => ?_, congrArg World.late h.eq⟩
  · rw [hd, h.gone_iff.mpr ho]
    rfl
  · rw [hd, Bool.eq_false_iff.mpr (mt h.gone_iff.mp hno)]
    rfl

theorem Inv.keGetRefCount (h : Inv w u gone locked) :
    w.obj.keGetRefCount = w.held + (!gone).toNat := by
  have hroom := h.room
  rw [h.eq]
  exact keGetRefCount_inOrder (by omega)

theorem inv_init (userType : Nat) : Inv (initUserObject userType) 1 false false := by
  have hcount : 1073741824 + (0 + (!false).toNat) = 1 + 8 * 134217728 := by decide
  refine ⟨?_, ?_, iff_of_false Bool.false_ne_true not_overdrawn_nil, fun _ => ?_⟩
  · unfold World.inOrder initUserObject objtypeUserObj
    dsimp only
    rw [hcount]
    rfl
  · exact (by decide : 0 + (!false).toNat + 1 < 134217728)
  · exact (by decide : 1 = userRefs [] % 256)

theorem late_noted (held : Nat) (calls : List Nat) : (w.noted held calls).late = w.late := rfl

theorem drops_noted (held : Nat) (calls : List Nat) : (w.noted held calls).drops = w.drops := rfl

theorem calls_noted (held : Nat) (calls : List Nat) : (w.noted held calls).calls = calls := rfl

theorem step_sysRef (w : World) (type : Nat) :
    w.step (.sysRef type) = (w.sysRef type).noted w.held (w.calls ++ [type]) := rfl

/-- `Inv` after a call, from the header that the call leaves. -/
theorem inv_sysRef {u' type : Nat} {gone' locked' : Bool}
    (hs : w.sysRef type =
      w.inOrder (w.held + (!gone').toNat) u' gone' locked' gone'.toNat)
    (hroom : w.held + (!gone').toNat + 1 < 134217728)
    (hgone : gone' = true ↔ Overdrawn (w.calls ++ [type]))
    (huser : gone' = false → u' = userRefs (w.calls ++ [type]) % 256) :
    Inv (w.step (.sysRef type)) u' gone' locked' := by
  rw [step_sysRef, hs]
  exact ⟨rfl, hroom, hgone, huser⟩

theorem Inv.sysRef_ref (h : Inv w u gone locked) (hn : 0 < w.held + (!gone).toNat) :
    Inv (w.step (.sysRef typeRef)) ((u + 1) % 256) gone false := by
  refine inv_sysRef ?_ h.room (h.gone_iff.trans overdrawn_ref.symm) fun hg => ?_
  · conv_lhs => rw [h.eq]
    exact Core.sysRef_ref hn h.room
  · have hle := count_le_of_not_overdrawn (mt h.gone_iff.mpr (Bool.eq_false_iff.mp hg))
    rw [h.user hg, userRefs_ref, userRefs]
    omega

theorem Inv.sysRef_deref_gone (h : Inv w u true locked) (hn : 0 < w.held) :
    Inv (w.step (.sysRef typeDeref)) ((u + 255) % 256) true false := by
  refine inv_sysRef ?_ h.room (iff_of_true rfl ?_) fun hg => absurd hg (by decide)
  · conv_lhs => rw [h.eq]
    exact Core.sysRef_deref_keep hn h.room (Or.inl rfl)
  · exact (h.gone_iff.mp rfl).append typeDeref

/-- The user still has other references. -/
theorem Inv.sysRef_deref_keep (h : Inv w u false locked) (hr : userRefs w.calls % 256 ≠ 1) :
    Inv (w.step (.sysRef typeDeref)) ((u + 255) % 256) false false := by
  have hno : ¬ Overdrawn w.calls := mt h.gone_iff.mpr Bool.false_ne_true
  have hle := count_le_of_not_overdrawn hno
  have hu := h.user rfl
  refine inv_sysRef ?_ h.room (iff_of_false Bool.false_ne_true ?_) fun _ => ?_
  · conv_lhs => rw [h.eq]
    exact Core.sysRef_deref_keep (Nat.succ_pos _) h.room (Or.inr (by omega))
  · rw [overdrawn_deref hno]
    intro h1
    exact hr (by rw [h1])
  · rw [hu, userRefs_deref]
    rw [userRefs] at hr ⊢
    omega

/-- The drop; it comes too early when the true number is not one. -/
theorem Inv.sysRef_deref_drop (h : Inv w u false locked) (hr : userRefs w.calls % 256 = 1) :
    w.sysRef typeDeref = w.inOrder w.held 0 true false 1 := by
  have hu := h.user rfl
  conv_lhs => rw [h.eq]
  exact Core.sysRef_deref_drop h.room (by omega)

theorem Inv.sysRef_deref_last (h : Inv w u false locked) (hr : userRefs w.calls = 1) :
    Inv (w.step (.sysRef typeDeref)) 0 true false := by
  have hno : ¬ Overdrawn w.calls := mt h.gone_iff.mpr Bool.false_ne_true
  have hroom : w.held + 1 + 1 < 134217728 := h.room
  refine inv_sysRef (h.sysRef_deref_drop (by omega)) (show w.held + 1 < _ by omega)
    (iff_of_true rfl ?_) fun hg => absurd hg (by decide)
  exact (overdrawn_deref hno).mpr hr

theorem Inv.sysRef_other {type : Nat} (h : Inv w u gone locked)
    (hn : 0 < w.held + (!gone).toNat) (hr : type ≠ typeRef) (hd : type ≠ typeDeref) :
    Inv (w.step (.sysRef type)) u gone locked := by
  refine inv_sysRef ?_ h.room (h.gone_iff.trans (overdrawn_other hr hd).symm) fun hg => ?_
  · conv_lhs => rw [h.eq]
    exact Core.sysRef_other hr hd hn h.room
  · have hr0 : [type].count typeRef = 0 :=
      List.count_eq_zero_of_not_mem (by simpa using Ne.symm hr)
    have hd0 : [type].count typeDeref = 0 :=
      List.count_eq_zero_of_not_mem (by simpa using Ne.symm hd)
    rw [h.user hg, userRefs, userRefs, List.count_append, List.count_append, hr0, hd0]
    rfl

/-- A call that meets the condition keeps the object in order. -/
theorem Inv.sysRef (h : Inv w u gone locked) {type : Nat} (hok : CallOk w (.sysRef type)) :
    ∃ u' gone' locked', Inv (w.step (.sysRef type)) u' gone' locked' := by
  obtain ⟨hpos, hearly⟩ := hok
  rw [h.keGetRefCount] at hpos
  by_cases hr : type = typeRef
  · subst hr
    exact ⟨_, _, _, h.sysRef_ref hpos⟩
  by_cases hd : type = typeDeref
  · subst hd
    cases gone with
    | true => exact ⟨_, _, _, h.sysRef_deref_gone hpos⟩
    | false =>
      have hno : ¬ Overdrawn w.calls := mt h.gone_iff.mpr Bool.false_ne_true
      by_cases h1 : userRefs w.calls % 256 = 1
      · exact ⟨_, _, _, h.sysRef_deref_last (hearly hno rfl h1)⟩
      · exact ⟨_, _, _, h.sysRef_deref_keep h1⟩
  · exact ⟨_, _, _, h.sysRef_other hpos hr hd⟩

/-- A call that does not meet it breaks the promise at once. -/
theorem Inv.callOk_of_kept (h : Inv w u gone locked) {type : Nat}
    (hk : Kept (w.step (.sysRef type))) : CallOk w (.sysRef type) := by
  rw [step_sysRef] at hk
  obtain ⟨-, hearly, hlate⟩ := hk
  rw [calls_noted, drops_noted] at hearly
  rw [late_noted] at hlate
  refine ⟨Nat.pos_of_ne_zero fun h0 => ?_, fun hno hd h1 => ?_⟩
  · -- the object was cleaned up, and the check of the call already touches it
    have ht : w.touch.late = true := by
      rw [h.keGetRefCount] at h0
      rw [h.eq, h0]
      rfl
    have hr : w.refObject.late = true := by simp only [World.refObject, ht]
    exact Bool.false_ne_true (hlate.symm.trans (late_sysRef type hr))
  · subst hd
    have hg : gone = false := Bool.eq_false_iff.mpr (mt h.gone_iff.mp hno)
    subst hg
    by_contra hne
    rw [h.sysRef_deref_drop h1] at hearly
    exact Nat.one_ne_zero (hearly fun ho => hne ((overdrawn_deref hno).mp ho))

theorem Inv.refObject (h : Inv w u gone locked) (hp : Permitted w .refObject) :
    Inv (w.step .refObject) u gone locked := by
  obtain ⟨hpos, hroom⟩ := hp
  rw [h.keGetRefCount] at hpos hroom
  have hs : w.refObject =
      w.inOrder (w.held + (!gone).toNat + 1) u gone locked gone.toNat := by
    conv_lhs => rw [h.eq]
    exact refObject_inOrder hpos (by omega)
  have hcomm : w.held + (!gone).toNat + 1 = w.held + 1 + (!gone).toNat := by omega
  unfold World.step
  rw [hs, hcomm]
  exact ⟨rfl, show w.held + 1 + (!gone).toNat + 1 < _ by omega, h.gone_iff, h.user⟩

theorem Inv.derefObject (h : Inv w u gone locked) (hp : Permitted w .derefObject) :
    Inv (w.step .derefObject) u gone locked := by
  obtain ⟨m, hm⟩ : ∃ m, w.held = m + 1 := ⟨w.held - 1, (Nat.sub_add_cancel hp).symm⟩
  have hroom := h.room
  have hcomm : m + 1 + (!gone).toNat = m + (!gone).toNat + 1 := by omega
  have hs : w.derefObject = w.inOrder (m + (!gone).toNat) u gone locked gone.toNat := by
    conv_lhs => rw [h.eq]
    rw [hm, hcomm]
    exact derefObject_inOrder (by omega)
  unfold World.step
  rw [hs, hm]
  exact ⟨rfl, show m + (!gone).toNat + 1 < _ by omega, h.gone_iff, h.user⟩

theorem Inv.step {a : Act} (h : Inv w u gone locked) (hp : Permitted w a) (hok : CallOk w a) :
    ∃ u' gone' locked', Inv (w.step a) u' gone' locked' := by
  cases a with
  | sysRef type => exact h.sysRef hok
  | refObject => exact ⟨_, _, _, h.refObject hp⟩
  | derefObject => exact ⟨_, _, _, h.derefObject hp⟩

theorem Inv.callOk (h : Inv w u gone locked) {a : Act} (hk : Kept (w.step a)) : CallOk w a := by
  cases a with
  | sysRef type => exact h.callOk_of_kept hk
  | refObject => trivial
  | derefObject => trivial

theorem Inv.kept_iff {acts : List Act} (h : Inv w u gone locked) (hf : Fair w acts) :
    (∀ p, p <+: acts → Kept (p.foldl World.step w)) ↔ CallsOk w acts := by
  induction acts generalizing w u gone locked with
  | nil =>
    refine iff_of_true (fun p hp => ?_) trivial
    rw [List.prefix_nil.mp hp]
    exact h.kept
  | cons a acts ih =>
    obtain ⟨hp, hf⟩ := hf
    constructor
    · intro hall
      have hok := h.callOk (hall [a] ⟨acts, rfl⟩)
      obtain ⟨_, _, _, hs⟩ := h.step hp hok
      refine ⟨hok, (ih hs hf).mp fun p hpre => ?_⟩
      exact hall (a :: p) (List.cons_prefix_cons.mpr ⟨rfl, hpre⟩)
    · rintro ⟨hok, hrest⟩ p hpre
      obtain ⟨_, _, _, hs⟩ := h.step hp hok
      cases p with
      | nil => exact h.kept
      | cons b p =>
        obtain ⟨rfl, htail⟩ := List.cons_prefix_cons.mp hpre
        exact (ih hs hf).mpr hrest p htail

/--
The kernel reference of the user is dropped exactly at the overdraft and nothing is accessed after
the last reference, as long as every call is made on an object that is still there and none takes
the count from 257 to 256 and so on; and not longer.
-/
theorem user_reference_kept_iff (userType : Nat) (acts : List Act)
    (hf : Fair (initUserObject userType) acts) :
    (∀ p, p <+: acts → Kept (run userType p)) ↔ CallsOk (initUserObject userType) acts :=
  (inv_init userType).kept_iff hf

theorem user_reference_kept_iff_shared :
    (∀ p, p <+: [.sysRef typeRef, .refObject, .sysRef typeDeref, .sysRef typeDeref, .derefObject] →
      Kept (run 3 p)) ↔
    CallsOk (initUserObject 3)
      [.sysRef typeRef, .refObject, .sysRef typeDeref, .sysRef typeDeref, .derefObject] :=
  user_reference_kept_iff 3 _ (by decide +kernel)

/--
A second `TYPE_DEREF` touches the object that the first one freed; and after 256 of `TYPE_REF` one
`TYPE_DEREF` drops the reference of a user who has 256 left.
-/
theorem user_reference_lost :
    ¬ Kept (run 3 [.sysRef typeDeref, .sysRef typeDeref]) ∧
      ¬ Kept (run 3 (List.replicate 256 (.sysRef typeRef) ++ [.sysRef typeDeref])) := by
  refine ⟨fun h => ?_, fun h => ?_⟩
  · exact absurd h.notLate (by decide +kernel)
  · exact absurd (h.notEarly (by decide +kernel)) (by decide +kernel)

end Nolrem.Core
