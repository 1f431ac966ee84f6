import Mathlib.Tactic.Common

/-!
# Computations that may stop

A kernel function gives a value or stops the machine. `Ends x post err` is a triple
without a precondition: a value satisfies `post`, a stop satisfies `err`.
-/

namespace Nolrem.Lib

universe u v

variable {ε : Type u} {α β : Type v}

/-- If `x` gives a value it satisfies `post`, and if it stops then for a reason in `err`. -/
def Ends (x : Except ε α) (post : α → Prop) (err : ε → Prop) : Prop :=
  match x with
  | .ok a => post a
  | .error e => err e

variable {x : Except ε α} {P Q : α → Prop} {E F : ε → Prop}

@[simp] theorem ends_ok {a : α} : Ends (.ok a) P E ↔ P a := Iff.rfl

@[simp] theorem ends_pure {a : α} : Ends (pure a) P E ↔ P a := Iff.rfl

@[simp] theorem ends_error {e : ε} : Ends (.error e : Except ε α) P E ↔ E e := Iff.rfl

/-- The rule for sequencing. -/
theorem Ends.bind {f : α → Except ε β} {goal : β → Prop} (hx : Ends x P E)
    (hf : ∀ a, P a → Ends (f a) goal E) : Ends (x >>= f) goal E := by
  cases x with
  | ok a => exact hf a hx
  | error e => exact hx

/-- The rule of consequence. -/
theorem Ends.mono (hx : Ends x P E) (hpost : ∀ a, P a → Q a)
    (herr : ∀ e, E e → F e) : Ends x Q F := by
  cases x with
  | ok a => exact hpost a hx
  | error e => exact herr e hx

/-- Two postconditions of one computation -/
theorem Ends.and (hP : Ends x P E) (hQ : Ends x Q F) : Ends x (fun a => P a ∧ Q a) E := by
  cases x with
  | ok a => exact ⟨hP, hQ⟩
  | error e => exact hP

theorem Ends.of_ok {a : α} (hx : Ends x P E) (h : x = .ok a) : P a := by
  subst h
  exact hx

theorem Ends.of_error {e : ε} (hx : Ends x P E) (h : x = .error e) : E e := by
  subst h
  exact hx

/-- A computation that never stops for a reason in `E` gives a value. -/
theorem Ends.exists_ok (hx : Ends x P E) (h : ∀ e, ¬ E e) : ∃ a, x = .ok a ∧ P a := by
  cases x with
  | ok a => exact ⟨a, rfl, hx⟩
  | error e => exact absurd hx (h e)

end Nolrem.Lib
