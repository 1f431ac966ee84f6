import Mathlib.Data.List.Infix
import Mathlib.Tactic.Common

/-!
# Objects that the user can refer to

`kernel/core/obj.c`, and the system call `SysRef` of `kernel/CLIPDRAW/syscall/ref.c` with its check
in `validate/objvalidate.c`. The header of one object is modelled, with a note of every access that
comes after its memory was given to a cleanup handler.
-/

namespace Nolrem.Core

/-! ## The code -/

/-- `OBJTYPE_USEROBJ` -/
def objtypeUserObj : Nat := 8

/-- `TYPE_REF` -/
def typeRef : Nat := 0

/-- `TYPE_DEREF` -/
def typeDeref : Nat := 1

/-- `struct user_obj_header`. Of the 32 bits of `refCount` the upper five are the object's type. -/
structure UserObj where
  refCount : Nat
  userRefCount : Nat
  userGone : Bool
  userType : Nat
  locked : Bool
deriving DecidableEq, Repr

/-- `KeGetRefCount` -/
def UserObj.keGetRefCount (o : UserObj) : Nat := o.refCount % 134217728

/-- `KeGetObjectType` -/
def UserObj.keGetObjectType (o : UserObj) : Nat := o.refCount / 134217728

/--
The object and what happened to it. `cleanups` counts the runs of a cleanup handler, and `late` says
that the header was read or written after one. `drops`, `held` and `calls` are for the statements
only: how often `UserDeref` gave up the kernel reference, how many references the rest of the kernel
holds, and the types of the calls of `SysRef` so far.
-/
structure World where
  obj : UserObj
  cleanups : Nat
  late : Bool
  drops : Nat
  held : Nat
  calls : List Nat
deriving DecidableEq, Repr

/-- A read or a write of the header. -/
def World.touch (w : World) : World := { w with late := w.late || decide (0 < w.cleanups) }

/-- `InitUserObject`, which begins with `InitObject`. -/
def initUserObject (userType : Nat) : World :=
  { obj :=
      { refCount := 1 + objtypeUserObj * 134217728
        userRefCount := 1
        userGone := false
        userType
        locked := false }
    cleanups := 0, late := false, drops := 0, held := 0, calls := [] }

/-- `RefObject` -/
def World.refObject (w : World) : World :=
  let w := w.touch
  { w with obj := { w.obj with refCount := (w.obj.refCount + 1) % 4294967296 } }

/-- `CleanupUserObj`: the type is read, and the handler for that type frees the object. -/
def World.cleanupUserObj (w : World) : World :=
  let w := w.touch
  { w with cleanups := w.cleanups + 1 }

/-- `DerefObject` -/
def World.derefObject (w : World) : World :=
  let w := w.touch
  let w := { w with obj := { w.obj with refCount := (w.obj.refCount + 4294967295) % 4294967296 } }
  if w.obj.keGetRefCount = 0 then
    if w.obj.keGetObjectType = objtypeUserObj then w.cleanupUserObj
    else { w with cleanups := w.cleanups + 1 }
  else w

/-- `AcquireSpinlock(&uo->lock)` -/
def World.acquire (w : World) : World :=
  let w := w.touch
  { w with obj := { w.obj with locked := true } }

/-- `ReleaseSpinlock(&uo->lock)` -/
def World.release (w : World) : World :=
  let w := w.touch
  { w with obj := { w.obj with locked := false } }

/-- `UserRef` -/
def World.userRef (w : World) : World :=
  let w := w.acquire
  let w := { w with obj := { w.obj with userRefCount := (w.obj.userRefCount + 1) % 256 } }
  w.release

/-- `uo->user_ref_count--` -/
def World.countDown (w : World) : World :=
  { w with obj := { w.obj with userRefCount := (w.obj.userRefCount + 255) % 256 } }

/-- `uo->user_gone = true` -/
def World.markGone (w : World) : World := { w with obj := { w.obj with userGone := true } }

def World.countDrop (w : World) : World := { w with drops := w.drops + 1 }

/-- What `UserDeref` does when the count is zero for the first time. -/
def World.giveUp (w : World) : World := w.markGone.derefObject.countDrop

/-- `UserDeref` -/
def World.userDeref (w : World) : World :=
  let w := w.acquire.countDown
  World.release
    (if w.obj.userGone then w
    else if w.obj.userRefCount = 0 then w.giveUp
    else w)

/-- `IsValidUserOwnedObject`, which does not look at the object yet. -/
def isValidUserOwnedObject (_ : World) : Bool := true

/-- `ValidateUserObjectAndAtomicallyRef`; the type is `none` for `UOBJ_ANYTYPE`. -/
def World.validateUserObjectAndAtomicallyRef (w : World) (type : Option Nat) : World × Bool :=
  let ok := isValidUserOwnedObject w
  let (w, ok) :=
    match type with
    | none => (w, ok)
    | some t => if ok then (w.touch, w.obj.userType == t) else (w, false)
  if ok then (w.refObject, true) else (w, false)

/-- `SysRef`. A type that is neither of the two changes nothing. -/
def World.sysRef (w : World) (type : Nat) : World :=
  let (w, ok) := w.validateUserObjectAndAtomicallyRef none
  if ok then
    let w :=
      if type = typeRef then w.userRef
      else if type = typeDeref then w.userDeref
      else w
    w.derefObject
  else w

/-- What happens to the object: a system call, or a reference of the rest of the kernel. -/
inductive Act where
  | sysRef (type : Nat)
  | refObject
  | derefObject
deriving DecidableEq, Repr

def World.noted (w : World) (held : Nat) (calls : List Nat) : World :=
  { w with held := held, calls := calls }

def World.step (w : World) : Act → World
  | .sysRef type => (w.sysRef type).noted w.held (w.calls ++ [type])
  | .refObject => w.refObject.noted (w.held + 1) w.calls
  | .derefObject => w.derefObject.noted (w.held - 1) w.calls

/-- The object after `acts`, from its creation on. -/
def run (userType : Nat) (acts : List Act) : World :=
  acts.foldl World.step (initUserObject userType)

/-! ## What is asked of the calls -/

/-- At some moment there were more `TYPE_DEREF` calls than `TYPE_REF` calls. -/
def Overdrawn (calls : List Nat) : Prop :=
  ∃ p, p <+: calls ∧ p.count typeRef < p.count typeDeref

instance (calls : List Nat) : Decidable (Overdrawn calls) :=
  decidable_of_iff (∃ p ∈ calls.inits, p.count typeRef < p.count typeDeref) <| by
    simp only [List.mem_inits, Overdrawn]

/-- The user references that are left after `calls`; the creator has the first. -/
def userRefs (calls : List Nat) : Nat := 1 + calls.count typeRef - calls.count typeDeref

/--
The kernel reference of the user was dropped once if the calls were overdrawn and not otherwise, and
nothing was accessed after the last reference.
-/
structure Kept (w : World) : Prop where
  once : Overdrawn w.calls → w.drops = 1
  notEarly : ¬ Overdrawn w.calls → w.drops = 0
  notLate : w.late = false

/--
The rest of the kernel takes a reference only while there is one, and gives up only what it holds.
The count keeps clear of the bits of the type.
-/
def Permitted (w : World) : Act → Prop
  | .sysRef _ => True
  | .refObject => 0 < w.obj.keGetRefCount ∧ w.obj.keGetRefCount + 2 < 134217728
  | .derefObject => 0 < w.held

instance (w : World) : (a : Act) → Decidable (Permitted w a)
  | .sysRef _ => inferInstanceAs (Decidable True)
  | .refObject =>
    inferInstanceAs (Decidable (0 < w.obj.keGetRefCount ∧ w.obj.keGetRefCount + 2 < 134217728))
  | .derefObject => inferInstanceAs (Decidable (0 < w.held))

/-- Every step of the rest of the kernel is permitted. -/
def Fair : World → List Act → Prop
  | _, [] => True
  | w, a :: acts => Permitted w a ∧ Fair (w.step a) acts

instance decidableFair : (w : World) → (acts : List Act) → Decidable (Fair w acts)
  | _, [] => inferInstanceAs (Decidable True)
  | w, a :: acts =>
    have := decidableFair (w.step a) acts
    inferInstanceAs (Decidable (Permitted w a ∧ Fair (w.step a) acts))

/--
The object of the call is still there; and a `TYPE_DEREF` before the drop does not take the user
references from 257, 513, and so on, where their eight bits come to zero too early.
-/
def CallOk (w : World) : Act → Prop
  | .sysRef type =>
    0 < w.obj.keGetRefCount ∧
      (¬ Overdrawn w.calls → type = typeDeref → userRefs w.calls % 256 = 1 → userRefs w.calls = 1)
  | _ => True

/-- Every call meets `CallOk` in the state it is made in. -/
def CallsOk : World → List Act → Prop
  | _, [] => True
  | w, a :: acts => CallOk w a ∧ CallsOk (w.step a) acts

/-! ## The counts of calls -/

section Counts

variable {calls : List Nat}

theorem overdrawn_append (t : Nat) :
    Overdrawn (calls ++ [t]) ↔
      Overdrawn calls ∨ (calls ++ [t]).count typeRef < (calls ++ [t]).count typeDeref := by
  constructor
  · rintro ⟨p, hp, hlt⟩
    rcases List.prefix_concat_iff.mp hp with rfl | hp
    · exact Or.inr hlt
    · exact Or.inl ⟨p, hp, hlt⟩
  · rintro (⟨p, hp, hlt⟩ | hlt)
    · exact ⟨p, hp.trans (List.prefix_append ..), hlt⟩
    · exact ⟨_, List.prefix_refl _, hlt⟩

theorem Overdrawn.append (h : Overdrawn calls) (t : Nat) : Overdrawn (calls ++ [t]) :=
  (overdrawn_append t).mpr (Or.inl h)

theorem count_le_of_not_overdrawn (h : ¬ Overdrawn calls) :
    calls.count typeDeref ≤ calls.count typeRef :=
  Nat.le_of_not_lt fun hlt => h ⟨calls, List.prefix_refl _, hlt⟩

theorem not_overdrawn_nil : ¬ Overdrawn [] := by
  rintro ⟨p, hp, hlt⟩
  rw [List.prefix_nil.mp hp] at hlt
  exact absurd hlt (Nat.lt_irrefl _)

theorem userRefs_ref : userRefs (calls ++ [typeRef]) =
    1 + (calls.count typeRef + 1) - calls.count typeDeref := by
  simp [userRefs, typeRef, typeDeref, List.count_append]

theorem userRefs_deref : userRefs (calls ++ [typeDeref]) =
    1 + calls.count typeRef - (calls.count typeDeref + 1) := by
  simp [userRefs, typeRef, typeDeref, List.count_append]

theorem overdrawn_ref : Overdrawn (calls ++ [typeRef]) ↔ Overdrawn calls := by
  rw [overdrawn_append]
  refine ⟨fun h => h.elim id fun hlt => ?_, Or.inl⟩
  by_contra hno
  have hle := count_le_of_not_overdrawn hno
  simp only [List.count_append, typeRef, typeDeref, List.count_singleton] at hlt hle
  simp at hlt
  omega

/-- Before the calls are overdrawn, the one that overdraws them gives up the only reference. -/
theorem overdrawn_deref (hno : ¬ Overdrawn calls) :
    Overdrawn (calls ++ [typeDeref]) ↔ userRefs calls = 1 := by
  have hle := count_le_of_not_overdrawn hno
  rw [overdrawn_append, or_iff_right hno]
  unfold userRefs
  simp only [List.count_append, typeRef, typeDeref, List.count_singleton] at hle ⊢
  simp only [Nat.reduceBEq, Bool.false_eq_true, if_false, if_true, beq_self_eq_true]
  omega

theorem overdrawn_other {t : Nat} (hr : t ≠ typeRef) (hd : t ≠ typeDeref) :
    Overdrawn (calls ++ [t]) ↔ Overdrawn calls := by
  rw [overdrawn_append]
  refine ⟨fun h => h.elim id fun hlt => ?_, Or.inl⟩
  refine ⟨calls, List.prefix_refl _, ?_⟩
  have hr0 : [t].count typeRef = 0 := List.count_eq_zero_of_not_mem (by simpa using Ne.symm hr)
  have hd0 : [t].count typeDeref = 0 := List.count_eq_zero_of_not_mem (by simpa using Ne.symm hd)
  rwa [List.count_append, List.count_append, hr0, hd0] at hlt

end Counts

end Nolrem.Core
