import Mathlib.Tactic.Common

/-!
# Buffers that are filled piece by piece

A buffer holds the part of an image that starts at `off`. Each step copies some places of the image
and keeps the rest of the buffer, so the order of the steps does not matter.
-/

namespace Nolrem.Lib

variable {α β σ : Type}

/-- `new` holds the image at the places of `P`, and what `old` holds elsewhere. -/
def Fills (image : Nat → β) (off : Nat) (P : Nat → Prop) (old new : Nat → β) : Prop :=
  ∀ i, (P (off + i) → new i = image (off + i)) ∧ (¬ P (off + i) → new i = old i)

namespace Fills

variable {image : Nat → β} {off : Nat} {P Q : Nat → Prop} {a b c : Nat → β}

theorem refl (hP : ∀ i, ¬ P (off + i)) : Fills image off P a a :=
  fun i => ⟨fun h => absurd h (hP i), fun _ => rfl⟩

/-- What two steps fill is what one of them fills. -/
theorem comp (hab : Fills image off P a b) (hbc : Fills image off Q b c) :
    Fills image off (fun x => P x ∨ Q x) a c := by
  intro i
  constructor
  · intro h
    by_cases hQ : Q (off + i)
    · exact (hbc i).1 hQ
    · rw [(hbc i).2 hQ]
      exact (hab i).1 (h.resolve_right hQ)
  · intro h
    rw [(hbc i).2 fun hQ => h (Or.inr hQ)]
    exact (hab i).2 fun hP => h (Or.inl hP)

theorem congr (h : Fills image off P a b) (hPQ : ∀ i, P (off + i) ↔ Q (off + i)) :
    Fills image off Q a b :=
  fun i => ⟨fun hQ => (h i).1 ((hPQ i).mpr hQ), fun hQ => (h i).2 fun hP => hQ ((hPQ i).mp hP)⟩

/-- One place is filled. -/
theorem update {x : Nat} (hx : off ≤ x) :
    Fills image off (fun y => y = x) a (Function.update a (x - off) (image x)) := by
  intro i
  constructor
  · intro h
    rw [show i = x - off by omega, Function.update_self, show off + (x - off) = x by omega]
  · intro h
    exact Function.update_of_ne (by omega) _ _

/-- A loop whose rounds keep an invariant and fill a part each. -/
theorem foldl {step : σ → α → σ} (out : σ → Nat → β) (I : σ → Prop) (part : α → Nat → Prop)
    {l : List α}
    (h : ∀ s x, x ∈ l → I s →
      I (step s x) ∧ Fills image off (part x) (out s) (out (step s x)))
    {s : σ} (hs : I s) :
    I (l.foldl step s) ∧
      Fills image off (fun y => ∃ x ∈ l, part x y) (out s) (out (l.foldl step s)) := by
  induction l generalizing s with
  | nil => exact ⟨hs, refl fun i ⟨x, hx, _⟩ => absurd hx List.not_mem_nil⟩
  | cons x l ih =>
    obtain ⟨hI, hfirst⟩ := h s x List.mem_cons_self hs
    obtain ⟨hI', hrest⟩ := ih (fun s y hy => h s y (List.mem_cons_of_mem x hy)) hI
    refine ⟨hI', (hfirst.comp hrest).congr fun i => ?_⟩
    simp

end Fills

end Nolrem.Lib
