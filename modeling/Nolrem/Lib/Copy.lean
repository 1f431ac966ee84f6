import Mathlib.Logic.Function.Basic
import Mathlib.Tactic.Common

/-!
# Copies

A memory has a value at each address. A loop copies from the addresses `src 0, src 1, ..` to the
addresses `dst 0, dst 1, ..`, upwards or downwards. Which of the two is right depends on what is
overwritten before it is read.
-/

namespace Nolrem.Lib

variable {α β : Type}

/-- The loop that copies the first place first -/
def copyUp [DecidableEq α] (dst src : Nat → α) : Nat → (α → β) → α → β
  | 0, m => m
  | n + 1, m =>
    let m := copyUp dst src n m
    Function.update m (dst n) (m (src n))

/-- The loop that copies the last place first -/
def copyDown [DecidableEq α] (dst src : Nat → α) : Nat → (α → β) → α → β
  | 0, m => m
  | n + 1, m => copyDown dst src n (Function.update m (dst n) (m (src n)))

/-- What was at the first `n` places of the source is at those of the destination. -/
structure Copied (dst src : Nat → α) (n : Nat) (m m' : α → β) : Prop where
  copied : ∀ i < n, m' (dst i) = m (src i)
  kept : ∀ x, (∀ i < n, x ≠ dst i) → m' x = m x

/-- The first `n` places are different. -/
def Distinct (p : Nat → α) (n : Nat) : Prop := ∀ i < n, ∀ j < n, p i = p j → i = j

variable {dst src : Nat → α} {n k : Nat} {m m₁ m₂ : α → β}

theorem Distinct.initial (h : Distinct dst (n + k)) : Distinct dst n :=
  fun i hi j hj => h i (by omega) j (by omega)

namespace Copied

theorem zero : Copied dst src 0 m m := ⟨fun i hi => by omega, fun _ _ => rfl⟩

/-- Only one memory is what a copy leaves. -/
theorem unique (h₁ : Copied dst src n m m₁) (h₂ : Copied dst src n m m₂) : m₁ = m₂ := by
  funext x
  by_cases hx : ∃ i, i < n ∧ x = dst i
  · obtain ⟨i, hi, rfl⟩ := hx
    rw [h₁.copied i hi, h₂.copied i hi]
  · have hx' : ∀ i < n, x ≠ dst i := fun i hi he => hx ⟨i, hi, he⟩
    rw [h₁.kept x hx', h₂.kept x hx']

/-- A copy goes on after its first `n` places, none of which is read later. -/
theorem comp (h₁ : Copied dst src n m m₁)
    (h₂ : Copied (fun i => dst (n + i)) (fun i => src (n + i)) k m₁ m₂)
    (hdst : Distinct dst (n + k)) (hread : ∀ i < n, ∀ j < k, dst i ≠ src (n + j)) :
    Copied dst src (n + k) m m₂ := by
  constructor
  · intro i hi
    by_cases hin : i < n
    · rw [h₂.kept (dst i), h₁.copied i hin]
      intro j hj he
      have := hdst i hi (n + j) (by omega) he
      omega
    · obtain ⟨j, rfl⟩ := Nat.exists_eq_add_of_le (Nat.le_of_not_lt hin)
      have hj : j < k := by omega
      rw [h₂.copied j hj]
      exact h₁.kept _ fun i hi he => hread i hi j hj he.symm
  · intro x hx
    rw [h₂.kept x fun j hj => hx (n + j) (by omega), h₁.kept x fun i hi => hx i (by omega)]

end Copied

section Loops

variable [DecidableEq α]

/-- One place is copied. -/
theorem copied_update (m : α → β) :
    Copied (fun i => dst (n + i)) (fun i => src (n + i)) 1 m
      (Function.update m (dst n) (m (src n))) := by
  constructor
  · intro i hi
    obtain rfl : i = 0 := by omega
    exact Function.update_self ..
  · intro x hx
    exact Function.update_of_ne (hx 0 (by omega)) _ _

/-- Upwards, no place is read after it was overwritten. -/
theorem copyUp_copied (hdst : Distinct dst n) (hread : ∀ j < n, ∀ i < j, dst i ≠ src j) :
    Copied dst src n m (copyUp dst src n m) := by
  induction n with
  | zero => exact Copied.zero
  | succ n ih =>
    have hfirst := ih hdst.initial fun j hj => hread j (by omega)
    refine hfirst.comp (copied_update _) hdst fun i hi j hj => ?_
    obtain rfl : j = 0 := by omega
    exact hread n (by omega) i hi

/-- Downwards as well -/
theorem copyDown_copied (hdst : Distinct dst n) (hread : ∀ j < n, ∀ i < j, dst j ≠ src i) :
    Copied dst src n m (copyDown dst src n m) := by
  induction n generalizing m with
  | zero => exact Copied.zero
  | succ n ih =>
    -- the last place is copied already
    have hrest := @ih (Function.update m (dst n) (m (src n))) hdst.initial
      fun j hj => hread j (by omega)
    constructor
    · intro i hi
      by_cases hin : i < n
      · rw [copyDown, hrest.copied i hin]
        exact Function.update_of_ne (hread n (by omega) i hin).symm _ _
      · obtain rfl : i = n := by omega
        rw [copyDown, hrest.kept (dst i) fun j hj he => hin.elim ?_]
        · exact Function.update_self ..
        · have := hdst i (by omega) j (by omega) he
          omega
    · intro x hx
      rw [copyDown, hrest.kept x fun i hi => hx i (by omega)]
      exact Function.update_of_ne (hx n (by omega)) _ _

end Loops

end Nolrem.Lib
