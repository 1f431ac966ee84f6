import Nolrem.Wm.Owner
import Nolrem.Wm.Stale

/-!
# The passes at one pixel

At one pixel a pass over the windows behind a window changes at most one `vis_rgn`, that of the
window a walk from the front finds there.
-/

namespace Nolrem.Wm

open Siblings

variable {ws : Windows} {win : Nat} {p : Pixel}

/-- Whether `p` is in the `win_rgn` of a window -/
def hitAt (ws : Windows) (p : Pixel) (u : Nat) : Bool := decide (p ∈ (ws u).winRgn)

theorem hitAt_eq_true {u : Nat} : hitAt ws p u = true ↔ p ∈ (ws u).winRgn := by
  simp [hitAt]

/-- At `p`, going from `a` to `b` changes the `vis_rgn` of the window in `target` to `shown`. -/
def Shifts (p : Pixel) (shown : Prop) (target : Nat → Prop) (a b : Windows) : Prop :=
  ∀ u, (p ∈ (b u).visRgn ↔ (target u ∧ shown) ∨ (¬target u ∧ p ∈ (a u).visRgn))

theorem Shifts.refl {shown : Prop} {target : Nat → Prop} (h : ∀ u, ¬target u) (a : Windows) :
    Shifts p shown target a a := by
  intro u
  have := h u
  tauto

theorem Shifts.congr {shown : Prop} {target target' : Nat → Prop} {a b : Windows}
    (h : Shifts p shown target a b) (ht : ∀ u, target' u ↔ target u) :
    Shifts p shown target' a b := by
  intro u
  rw [h u, ht u]

/-- One pass after another, of which at most one meets `p`. -/
theorem Shifts.trans {shown : Prop} {t t' : Nat → Prop} {a b c : Windows}
    (h : Shifts p shown t a b) (h' : Shifts p shown t' b c) :
    Shifts p shown (fun u => t u ∨ t' u) a c := by
  intro u
  rw [h' u, h u]
  tauto

/-! ## Exposing and covering -/

variable {cover : Bool} {list : Siblings}

/-- The window that a pass over the windows behind `place` changes, if any -/
def behind (h : Nat → Bool) (place : Place) : Option Nat :=
  match place.nextSibling.owner h with
  | some u => some u
  | none =>
    match place.parents.head? with
    | none => none
    | some parent => if h parent then some parent else none

end Nolrem.Wm
