import Mathlib.Logic.Function.Basic
import Mathlib.Tactic.Common

/-!
# Ring buffers

A ring of `cap` slots holds a queue: `count` values in the slots from `start` on, where the
first slot follows the last.
-/

namespace Nolrem.Lib

variable {α : Type} {slot : Nat → α} {cap start count : Nat} {a : α}

/-- The values of the queue, the oldest first. -/
def ring (slot : Nat → α) (cap start : Nat) : Nat → List α
  | 0 => []
  | count + 1 => ring slot cap start count ++ [slot ((start + count) % cap)]

/-- Two places less than `cap` apart are two slots. -/
theorem ring_slot_ne {i : Nat} (hi : i < count) (hc : count < cap) :
    (start + i) % cap ≠ (start + count) % cap := by
  intro h
  have hd := Nat.div_add_mod (start + i) cap
  have hd' := Nat.div_add_mod (start + count) cap
  have hlt := Nat.mod_lt (start + i) (by omega : 0 < cap)
  rw [← h] at hd'
  rcases Nat.lt_trichotomy ((start + i) / cap) ((start + count) / cap) with hq | hq | hq
  · have := Nat.mul_le_mul_left cap hq
    rw [Nat.mul_succ] at this
    omega
  · rw [hq] at hd
    omega
  · have := Nat.mul_le_mul_left cap hq
    rw [Nat.mul_succ] at this
    omega

/-- A slot outside the queue may be written. -/
theorem ring_update_of_ne {j : Nat} (h : ∀ i < count, (start + i) % cap ≠ j) :
    ring (Function.update slot j a) cap start count = ring slot cap start count := by
  induction count with
  | zero => rfl
  | succ count ih =>
    rw [ring, ring, ih fun i hi => h i (by omega), Function.update_of_ne (h count (by omega))]

/-- The slot after the last one is written, or the last one once more. -/
theorem ring_push (hc : count < cap) :
    ring (Function.update slot ((start + count) % cap) a) cap start (count + 1) =
      ring slot cap start count ++ [a] := by
  rw [ring, ring_update_of_ne fun i hi => ring_slot_ne hi hc, Function.update_self]

/-- The oldest value is taken off. -/
theorem ring_pop : ring slot cap start (count + 1) =
    slot (start % cap) :: ring slot cap ((start + 1) % cap) count := by
  induction count with
  | zero => rfl
  | succ count ih =>
    rw [ring, ih, ring, Nat.mod_add_mod, Nat.add_assoc start 1, Nat.add_comm 1 count]
    rfl

end Nolrem.Lib
