import Mathlib.Data.Nat.Notation

/-!
# Machine words

The kernel is compiled with `-m32`, so `size_t` and every pointer is 32 bits wide.
A `size_t` is a `Nat` below `wordSize`, and each arithmetic operator of the source
that can wrap is one of the operators here.
-/

namespace Nolrem

/-- `2 ^ 32`, one more than `SIZE_MAX`. -/
def wordSize : Nat := 4294967296

/-- `a + b` on `size_t`. -/
def wadd (a b : Nat) : Nat := (a + b) % 4294967296

/-- `a - b` on `size_t`. -/
def wsub (a b : Nat) : Nat := (a + (4294967296 - b % 4294967296)) % 4294967296

/-- `a * b` on `size_t`. -/
def wmul (a b : Nat) : Nat := a * b % 4294967296

theorem wadd_eq {a b : Nat} (h : a + b < 4294967296) : wadd a b = a + b := by
  unfold wadd
  exact Nat.mod_eq_of_lt h

theorem wsub_eq {a b : Nat} (h : b ≤ a) (ha : a < 4294967296) : wsub a b = a - b := by
  unfold wsub
  omega

theorem wmul_eq {a b : Nat} (h : a * b < 4294967296) : wmul a b = a * b := by
  unfold wmul
  exact Nat.mod_eq_of_lt h

/-- `PAGE_SIZE` of the x86 port. -/
def pageSize : Nat := 4096

end Nolrem
