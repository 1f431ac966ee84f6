import Nolrem.Wm.Passes

/-!
# Moves and raises at one pixel

What `WmChangePosition` and `WmRaiseToTop` do to `vis_rgn` at one pixel: a window they recompute gets
its own area, and one other window, found behind the moved one, gains or loses the pixel.
-/

namespace Nolrem.Wm

open Nolrem.Lib Siblings

variable {ws : Windows} {win : Nat} {p : Pixel} {place : Place} {localR : Rect}

/-! ## Clipping -/

theorem behind_mem {h : Nat → Bool} {u : Nat} (hb : behind h place = some u) :
    u ∈ place.nextSibling.addrs ∨ place.parents.head? = some u := by
  unfold behind at hb
  cases ho : place.nextSibling.owner h with
  | some v =>
    simp only [ho, Option.some.injEq] at hb
    exact Or.inl (hb ▸ owner_mem ho)
  | none =>
    cases hp : place.parents.head? with
    | none => simp [ho, hp] at hb
    | some parent =>
      simp only [ho, hp, Option.ite_none_right_eq_some, Option.some.injEq] at hb
      exact Or.inr (congrArg some hb.2)

end Nolrem.Wm
