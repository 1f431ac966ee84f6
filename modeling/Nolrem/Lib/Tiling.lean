import Mathlib.Data.List.Count
import Mathlib.Data.List.Perm.Basic
import Mathlib.Tactic.Common

/-!
# Tilings of the integers by half-open intervals

`iv` reads an interval `[lo, hi)` off a value. `cover iv l x` counts the members of `l`
whose interval contains `x`. A list tiles a set when each point of the set is covered once
and each other point not at all; splitting and joining intervals keeps the count, so
operations on a tiling are equations between counts.
-/

namespace Nolrem.Lib

variable {α : Type*} (iv : α → Nat × Nat)

/-- `x` lies in the interval of `a`. -/
def Inside (a : α) (x : Nat) : Prop := (iv a).1 ≤ x ∧ x < (iv a).2

instance (a : α) (x : Nat) : Decidable (Inside iv a x) :=
  inferInstanceAs (Decidable (_ ∧ _))

/-- The number of members of `l` whose interval contains `x`. -/
def cover (l : List α) (x : Nat) : Nat := l.countP fun a => decide (Inside iv a x)

/-- One interval's share of the count. -/
def hit (lo hi x : Nat) : Nat := if lo ≤ x ∧ x < hi then 1 else 0

@[simp] theorem cover_nil (x : Nat) : cover iv [] x = 0 := rfl

@[simp] theorem cover_cons (a : α) (l : List α) (x : Nat) :
    cover iv (a :: l) x = hit (iv a).1 (iv a).2 x + cover iv l x := by
  unfold cover hit
  rw [List.countP_cons, Nat.add_comm]
  by_cases h : (iv a).1 ≤ x ∧ x < (iv a).2
  · rw [if_pos (decide_eq_true (show Inside iv a x from h)), if_pos h]
  · rw [if_neg (fun hd => h (show Inside iv a x from of_decide_eq_true hd)), if_neg h]

@[simp] theorem cover_append (l l' : List α) (x : Nat) :
    cover iv (l ++ l') x = cover iv l x + cover iv l' x := List.countP_append

theorem cover_perm {l l' : List α} (h : l.Perm l') (x : Nat) : cover iv l x = cover iv l' x :=
  h.countP_eq _

theorem cover_pos_iff {l : List α} {x : Nat} :
    0 < cover iv l x ↔ ∃ a ∈ l, Inside iv a x := by
  simp [cover, List.countP_pos_iff]

theorem cover_eq_zero_iff {l : List α} {x : Nat} :
    cover iv l x = 0 ↔ ∀ a ∈ l, ¬ Inside iv a x := by
  simp [cover, List.countP_eq_zero]

theorem cover_pos_of_mem {l : List α} {a : α} {x : Nat} (ha : a ∈ l) (hx : Inside iv a x) :
    0 < cover iv l x := (cover_pos_iff iv).mpr ⟨a, ha, hx⟩

/-- Two members that share a point which is covered at most once are the same. -/
theorem eq_of_cover_le_one {l : List α} {x : Nat} (h : cover iv l x ≤ 1) {a b : α}
    (ha : a ∈ l) (hb : b ∈ l) (hax : Inside iv a x) (hbx : Inside iv b x) : a = b := by
  classical
  by_contra hne
  have hperm : l.Perm (a :: l.erase a) := List.perm_cons_erase ha
  have hb' : b ∈ l.erase a := (List.mem_erase_of_ne (Ne.symm hne)).mpr hb
  have hpos : 0 < cover iv (l.erase a) x := cover_pos_of_mem iv hb' hbx
  have hhit : hit (iv a).1 (iv a).2 x = 1 := if_pos hax
  rw [cover_perm iv hperm, cover_cons, hhit] at h
  omega

/-- Cutting an interval in two keeps the count. -/
theorem hit_split {a b c : Nat} (hab : a ≤ b) (hbc : b ≤ c) (x : Nat) :
    hit a c x = hit a b x + hit b c x := by
  unfold hit
  split <;> split <;> split <;> omega

@[simp] theorem hit_self (a x : Nat) : hit a a x = 0 := by
  unfold hit
  rw [if_neg (by omega)]

theorem hit_le_one (a b x : Nat) : hit a b x ≤ 1 := by
  unfold hit
  split <;> omega

end Nolrem.Lib
