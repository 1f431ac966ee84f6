import Mathlib.Data.List.Basic
import Mathlib.Tactic.Common

/-!
# The first element of a list, by two tests

Two tests on the elements of a list that agree wherever `bad` does not hold, and never hold together
where it does. They find the same first element if and only if each bad element that one of them
accepts has one before it that the other test accepts.
-/

namespace Nolrem.Lib

variable {α : Type} {p q : α → Bool} {l : List α}

theorem findIdx?_eq_iff (bad : α → Bool) (hgood : ∀ x ∈ l, bad x = false → p x = q x)
    (hbad : ∀ x ∈ l, bad x = true → ¬ (p x = true ∧ q x = true)) :
    l.findIdx? p = l.findIdx? q ↔
      ∀ (i : Nat) (x : α), l[i]? = some x → bad x = true → (p x = true ∨ q x = true) →
        ∃ (j : Nat) (y : α), j < i ∧ l[j]? = some y ∧ q y = true := by
  induction l with
  | nil => simp
  | cons a l ih =>
    have hrest := ih (fun x hx => hgood x (List.mem_cons_of_mem a hx))
      (fun x hx => hbad x (List.mem_cons_of_mem a hx))
    rw [List.findIdx?_cons, List.findIdx?_cons]
    by_cases hq : q a = true
    · cases hb : bad a with
      | false =>
        -- both find the first element, which is before all others
        have hp : p a = true := (hgood a List.mem_cons_self hb).trans hq
        rw [if_pos hp, if_pos hq]
        refine iff_of_true rfl fun i x hx hbx _ => ⟨0, a, ?_, rfl, hq⟩
        refine Nat.pos_of_ne_zero fun h0 => ?_
        subst h0
        cases hx
        exact absurd hbx (by rw [hb]; exact Bool.false_ne_true)
      | true =>
        have hp : ¬ p a = true := fun hp => hbad a List.mem_cons_self hb ⟨hp, hq⟩
        rw [if_neg hp, if_pos hq]
        refine iff_of_false (fun h => ?_) fun h => ?_
        · cases hf : l.findIdx? p <;> rw [hf] at h <;> simp at h
        · obtain ⟨j, _, hj, -⟩ := h 0 a rfl hb (Or.inr hq)
          exact absurd hj (Nat.not_lt_zero j)
    · by_cases hp : p a = true
      · have hb : bad a = true := by
          by_contra hb
          exact hq ((hgood a List.mem_cons_self (Bool.eq_false_iff.mpr hb)).symm.trans hp)
        rw [if_pos hp, if_neg hq]
        refine iff_of_false (fun h => ?_) fun h => ?_
        · cases hf : l.findIdx? q <;> rw [hf] at h <;> simp at h
        · obtain ⟨j, _, hj, -⟩ := h 0 a rfl hb (Or.inl hp)
          exact absurd hj (Nat.not_lt_zero j)
      · rw [if_neg hp, if_neg hq, Option.map_inj_right fun _ _ => Nat.succ.inj, hrest]
        constructor
        · intro h i x hx hbx hpq
          cases i with
          | zero =>
            cases hx
            exact absurd hpq (not_or.mpr ⟨hp, hq⟩)
          | succ i =>
            obtain ⟨j, y, hj, hy, hqy⟩ := h i x hx hbx hpq
            exact ⟨j + 1, y, Nat.succ_lt_succ hj, hy, hqy⟩
        · intro h i x hx hbx hpq
          obtain ⟨j, y, hj, hy, hqy⟩ := h (i + 1) x hx hbx hpq
          cases j with
          | zero =>
            cases hy
            exact absurd hqy hq
          | succ j => exact ⟨j, y, Nat.lt_of_succ_lt_succ hj, hy, hqy⟩

end Nolrem.Lib
