import Mathlib.Logic.Function.Basic
import Mathlib.Tactic.Common

/-!
# Names, errors and references

What the files of `kernel/vfs` have in common. A string is the list of its characters, without the
one that ends it. A count of references is a number for each object; 0 is `NULL`.
-/

namespace Nolrem.Vfs

/-! ## `errno.h` -/

def enosys : Nat := 1

def enomem : Nat := 2

def enodev : Nat := 3

def einval : Nat := 7

def eexist : Nat := 8

def enoent : Nat := 9

def enametoolong : Nat := 13

def eisdir : Nat := 15

/-! ## References -/

/-- `RefObject` -/
def refObject (refs : Nat → Nat) (node : Nat) : Nat → Nat :=
  Function.update refs node (refs node + 1)

/-- `DerefObject` -/
def derefObject (refs : Nat → Nat) (node : Nat) : Nat → Nat :=
  Function.update refs node (refs node - 1)

theorem refObject_apply (refs : Nat → Nat) (node n : Nat) :
    refObject refs node n = if n = node then refs n + 1 else refs n := by
  unfold refObject
  rw [Function.update_apply]
  split
  · next h => rw [h]
  · rfl

theorem derefObject_apply (refs : Nat → Nat) (node n : Nat) :
    derefObject refs node n = if n = node then refs n - 1 else refs n := by
  unfold derefObject
  rw [Function.update_apply]
  split
  · next h => rw [h]
  · rfl

abbrev Name := List Char

/-- `MAX_COMPONENT_LENGTH` -/
def maxComponentLength : Nat := 128

/-- `CheckValidComponentName` -/
def checkValidComponentName (name : Name) : Nat :=
  if name = [] then einval
  else if name.any fun c => c = '/' || c = '\\' || c = ':' then einval
  else 0

end Nolrem.Vfs
