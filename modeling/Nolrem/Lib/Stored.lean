import Mathlib.Logic.Function.Basic
import Mathlib.Tactic.Common

/-!
# Lists in memory

A list lies in memory from an address on, and is written there element by element.
-/

namespace Nolrem.Lib

variable {α : Type*} {mem mem' : Nat → α} {p : Nat} {l l' : List α}

/-- The list `l` is at `p`. -/
def Stored (mem : Nat → α) : Nat → List α → Prop
  | _, [] => True
  | p, a :: l => mem p = a ∧ Stored mem (p + 1) l

@[simp] theorem stored_nil : Stored mem p [] := trivial

@[simp] theorem stored_cons {a : α} : Stored mem p (a :: l) ↔ mem p = a ∧ Stored mem (p + 1) l :=
  Iff.rfl

theorem stored_append :
    Stored mem p (l ++ l') ↔ Stored mem p l ∧ Stored mem (p + l.length) l' := by
  induction l generalizing p with
  | nil => simp
  | cons a l ih =>
    rw [List.cons_append, stored_cons, stored_cons, ih, and_assoc, List.length_cons,
      Nat.add_right_comm, Nat.add_assoc]

/-- Only the elements themselves matter, not where the list lies. -/
theorem Stored.move (h : Stored mem p l) {q : Nat}
    (heq : ∀ i < l.length, mem' (q + i) = mem (p + i)) : Stored mem' q l := by
  induction l generalizing p q with
  | nil => exact trivial
  | cons a l ih =>
    refine ⟨(heq 0 (Nat.succ_pos _)).trans h.1, ih h.2 fun i hi => ?_⟩
    have hnext := heq (i + 1) (Nat.succ_lt_succ hi)
    rwa [← Nat.add_assoc, ← Nat.add_assoc, Nat.add_right_comm q, Nat.add_right_comm p] at hnext

/-- The list `l` is written to `p`. -/
def store (mem : Nat → α) : Nat → List α → Nat → α
  | _, [] => mem
  | p, a :: l => store (Function.update mem p a) (p + 1) l

theorem store_below {i : Nat} (hi : i < p) : store mem p l i = mem i := by
  induction l generalizing mem p with
  | nil => rfl
  | cons a l ih =>
    rw [store, ih (Nat.lt_succ_of_lt hi), Function.update_of_ne (Nat.ne_of_lt hi)]

theorem stored_store : Stored (store mem p l) p l := by
  induction l generalizing mem p with
  | nil => exact trivial
  | cons a l ih =>
    refine ⟨?_, ih⟩
    rw [store, store_below (Nat.lt_succ_self p), Function.update_self]

theorem store_above {i : Nat} (hi : p + l.length ≤ i) : store mem p l i = mem i := by
  induction l generalizing mem p with
  | nil => rfl
  | cons a l ih =>
    rw [List.length_cons] at hi
    rw [store, ih (by omega), Function.update_of_ne (by omega)]

/-- What is at `p`, element by element. -/
theorem stored_iff_range :
    Stored mem p l ↔ (List.range l.length).map (fun k => mem (p + k)) = l := by
  induction l generalizing p with
  | nil => simp
  | cons a l ih =>
    rw [stored_cons, ih, List.length_cons, List.range_succ_eq_map, List.map_cons, List.map_map,
      List.cons.injEq]
    simp only [Function.comp_def, Nat.succ_eq_add_one, Nat.add_assoc, Nat.add_comm 1, Nat.add_zero]

/-- What is written behind a list is appended to it. -/
theorem Stored.append (h : Stored mem p l) : Stored (store mem (p + l.length) l') p (l ++ l') :=
  stored_append.mpr ⟨h.move fun _ hi => store_below (Nat.add_lt_add_left hi p), stored_store⟩

/-- The last element of a list is written over. -/
theorem Stored.set_last {a b : α} (h : Stored mem p (l ++ [a])) :
    Stored (Function.update mem (p + l.length) b) p (l ++ [b]) := by
  have hlast : Stored (store mem (p + l.length) [b]) p (l ++ [b]) := (stored_append.mp h).1.append
  exact hlast

end Nolrem.Lib
