import Mathlib.Data.Int.Notation
import Mathlib.Tactic.Common

/-!
# The integers of C

`int` and `long` have 32 bits, `long long` has 64. What an operation gives is defined only where it
fits.
-/

namespace Nolrem.Lib

/-- The value is one of `int`. -/
def FitsInt (n : Int) : Prop := -2147483648 ≤ n ∧ n ≤ 2147483647

instance (n : Int) : Decidable (FitsInt n) := inferInstanceAs (Decidable (_ ∧ _))

/-- The result of an operation on `int`, `none` where it is not defined. -/
def cInt (n : Int) : Option Int := if FitsInt n then some n else none

theorem cInt_eq_some {n m : Int} : cInt n = some m ↔ FitsInt n ∧ n = m := by
  unfold cInt
  split_ifs with h
  · simp [h]
  · simp [h]

theorem cInt_of_fits {n : Int} (h : FitsInt n) : cInt n = some n := if_pos h

/-- The result of an operation on `int64_t`, `none` where it is not defined. -/
def cInt64 (n : Int) : Option Int :=
  if -9223372036854775808 ≤ n ∧ n ≤ 9223372036854775807 then some n else none

theorem cInt64_of_fits {n : Int} (h : -9223372036854775808 ≤ n) (h' : n ≤ 9223372036854775807) :
    cInt64 n = some n := if_pos ⟨h, h'⟩

/-- The four bytes of an `int`, the lowest first. -/
def intBytes (n : Int) : List Nat :=
  let u := (n % 4294967296).toNat
  [u % 256, u / 256 % 256, u / 65536 % 256, u / 16777216]

/-- The `int` that four bytes are. -/
def intOf : List Nat → Int
  | [a, b, c, d] =>
    let u := a + 256 * b + 65536 * c + 16777216 * d
    if u < 2147483648 then u else u - 4294967296
  | _ => 0

@[simp] theorem length_intBytes (n : Int) : (intBytes n).length = 4 := rfl

theorem intOf_intBytes {n : Int} (h : FitsInt n) : intOf (intBytes n) = n := by
  obtain ⟨hlow, hhigh⟩ := h
  unfold intBytes intOf
  dsimp only
  generalize hu : (n % 4294967296).toNat = u
  have hsum : u % 256 + 256 * (u / 256 % 256) + 65536 * (u / 65536 % 256) +
      16777216 * (u / 16777216) = u := by omega
  rw [hsum]
  split_ifs <;> omega

/-- Where each element has a result, the list of them. -/
theorem mapM_of_forall {α β : Type*} {f : α → Option β} {g : α → β} {l : List α}
    (h : ∀ a ∈ l, f a = some (g a)) : l.mapM f = some (l.map g) := by
  induction l with
  | nil => rfl
  | cons a l ih =>
    obtain ⟨ha, hl⟩ := List.forall_mem_cons.mp h
    rw [List.mapM_cons, ha, ih hl]
    rfl

/-- If there is a list of results, each element has one. -/
theorem forall_of_mapM {α β : Type*} {f : α → Option β} {l : List α} {r : List β}
    (h : l.mapM f = some r) : ∀ a ∈ l, ∃ b, f a = some b := by
  induction l generalizing r with
  | nil => exact nofun
  | cons a l ih =>
    rw [List.mapM_cons] at h
    obtain ⟨b, hb, h⟩ := Option.bind_eq_some_iff.mp h
    obtain ⟨bs, hbs, -⟩ := Option.bind_eq_some_iff.mp h
    exact List.forall_mem_cons.mpr ⟨⟨b, hb⟩, ih hbs⟩

end Nolrem.Lib
