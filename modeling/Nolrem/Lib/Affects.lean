import Mathlib.Tactic.Common

/-!
# Changes at some places

A step makes something of what is at the places of a set, and keeps what is elsewhere. Steps that
do not disturb each other can be taken in any order.
-/

namespace Nolrem.Lib

variable {ι α β σ : Type}

/-- `new` is what `f` makes of `old` at the places of `P`, and `old` elsewhere. -/
def Affects (f : ι → β → β) (P : ι → Prop) (old new : ι → β) : Prop :=
  ∀ i, (P i → new i = f i (old i)) ∧ (¬ P i → new i = old i)

namespace Affects

variable {f : ι → β → β} {P Q : ι → Prop} {a b b' c : ι → β}

theorem refl (hP : ∀ i, ¬ P i) : Affects f P a a :=
  fun i => ⟨fun h => absurd h (hP i), fun _ => rfl⟩

theorem congr (h : Affects f P a b) (hPQ : ∀ i, P i ↔ Q i) : Affects f Q a b :=
  fun i => ⟨fun hQ => (h i).1 ((hPQ i).mpr hQ), fun hQ => (h i).2 fun hP => hQ ((hPQ i).mp hP)⟩

theorem congr_fun {g : ι → β → β} (h : Affects f P a b) (hfg : ∀ i, P i → ∀ v, f i v = g i v) :
    Affects g P a b :=
  fun i => ⟨fun hP => ((h i).1 hP).trans (hfg i hP (a i)), (h i).2⟩

/-- Only some of the places are looked at. -/
theorem comap {κ : Type} (loc : κ → ι) (h : Affects f P a b) :
    Affects (fun j => f (loc j)) (fun j => P (loc j)) (fun j => a (loc j)) fun j => b (loc j) :=
  fun j => h (loc j)

/-- Two steps, if what they do twice is the same as once. -/
theorem comp (hab : Affects f P a b) (hbc : Affects f Q b c)
    (htwice : ∀ i, P i → Q i → ∀ v, f i (f i v) = f i v) :
    Affects f (fun i => P i ∨ Q i) a c := by
  intro i
  constructor
  · intro h
    by_cases hQ : Q i
    · rw [(hbc i).1 hQ]
      by_cases hP : P i
      · rw [(hab i).1 hP, htwice i hP hQ]
      · rw [(hab i).2 hP]
    · rw [(hbc i).2 hQ]
      exact (hab i).1 (h.resolve_right hQ)
  · intro h
    rw [(hbc i).2 fun hQ => h (Or.inr hQ)]
    exact (hab i).2 fun hP => h (Or.inl hP)

/-- The places tell what comes out. -/
theorem unique (h : Affects f P a b) (h' : Affects f P a b') : b = b' := by
  funext i
  by_cases hP : P i
  · rw [(h i).1 hP, (h' i).1 hP]
  · rw [(h i).2 hP, (h' i).2 hP]

/-- A step that undoes itself. -/
theorem undo (hf : ∀ i v, f i (f i v) = v) (hab : Affects f P a b) (hbc : Affects f P b c) :
    c = a := by
  funext i
  by_cases hP : P i
  · rw [(hbc i).1 hP, (hab i).1 hP, hf]
  · rw [(hbc i).2 hP, (hab i).2 hP]

/-- A loop whose rounds keep an invariant and change some places each. -/
theorem foldl {step : σ → α → σ} (out : σ → ι → β) (I : σ → Prop) (part : α → ι → Prop)
    {l : List α}
    (h : ∀ s x, x ∈ l → I s →
      I (step s x) ∧ Affects f (part x) (out s) (out (step s x)))
    (htwice : l.Pairwise fun x y => ∀ i, part x i → part y i → ∀ v, f i (f i v) = f i v)
    {s : σ} (hs : I s) :
    I (l.foldl step s) ∧
      Affects f (fun i => ∃ x ∈ l, part x i) (out s) (out (l.foldl step s)) := by
  induction l generalizing s with
  | nil => exact ⟨hs, refl fun i ⟨x, hx, _⟩ => absurd hx List.not_mem_nil⟩
  | cons x l ih =>
    obtain ⟨hI, hfirst⟩ := h s x List.mem_cons_self hs
    obtain ⟨hx, hl⟩ := List.pairwise_cons.mp htwice
    obtain ⟨hI', hrest⟩ := ih (fun s y hy => h s y (List.mem_cons_of_mem x hy)) hl hI
    refine ⟨hI', (hfirst.comp hrest ?_).congr fun i => ?_⟩
    · rintro i hxi ⟨y, hy, hyi⟩
      exact hx y hy i hxi hyi
    · simp

end Affects

end Nolrem.Lib
