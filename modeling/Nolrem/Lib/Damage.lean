import Mathlib.Data.Finset.Basic

/-!
# What is shown and what has to be painted

A surface shows a set of points, some of them damaged. `NotStale a b` says that going from `a` to
`b` needs no more painting than the damage of `b` asks for. It is a preorder, so a run of changes is
checked one change at a time.
-/

namespace Nolrem.Lib

variable {α : Type*} [DecidableEq α]

structure Damage (α : Type*) where
  shown : Finset α
  dirty : Finset α

namespace Damage

/-- What comes into sight is damaged, and damage in sight stays. -/
def NotStale (a b : Damage α) : Prop :=
  b.shown \ a.shown ⊆ b.dirty ∧ a.shown ∩ a.dirty ∩ b.shown ⊆ b.dirty

theorem NotStale.mem_of_new {a b : Damage α} {p : α} (h : NotStale a b) (hp : p ∈ b.shown)
    (hn : p ∉ a.shown) : p ∈ b.dirty :=
  h.1 (Finset.mem_sdiff.mpr ⟨hp, hn⟩)

theorem NotStale.mem_of_dirty {a b : Damage α} {p : α} (h : NotStale a b) (hp : p ∈ b.shown)
    (ha : p ∈ a.shown) (hd : p ∈ a.dirty) : p ∈ b.dirty :=
  h.2 (by simp [ha, hd, hp])

/-- A point in sight is damaged if it was so before, or was out of sight. -/
theorem notStale_iff {a b : Damage α} :
    NotStale a b ↔ ∀ p ∈ b.shown, (p ∈ a.shown → p ∈ a.dirty) → p ∈ b.dirty := by
  constructor
  · intro h p hp hd
    by_cases ha : p ∈ a.shown
    · exact h.mem_of_dirty hp ha (hd ha)
    · exact h.mem_of_new hp ha
  · intro h
    constructor
    · intro p hp
      obtain ⟨hb, hn⟩ := Finset.mem_sdiff.mp hp
      exact h p hb fun ha => absurd ha hn
    · intro p hp
      simp only [Finset.mem_inter] at hp
      exact h p hp.2 fun _ => hp.1.2

theorem NotStale.refl (a : Damage α) : NotStale a a :=
  notStale_iff.mpr fun _ hp hd => hd hp

theorem NotStale.trans {a b c : Damage α} (hab : NotStale a b) (hbc : NotStale b c) :
    NotStale a c := by
  rw [notStale_iff] at *
  intro p hp hd
  exact hbc p hp fun hb => hab p hb hd

/-- A surface that is damaged wherever it shows is never stale. -/
theorem notStale_of_shown_subset {a b : Damage α} (h : b.shown ⊆ b.dirty) : NotStale a b :=
  notStale_iff.mpr fun _ hp _ => h hp

/-- Points taken out of sight or brought into it, with the damage grown by those brought. -/
theorem notStale_of_grown {a b : Damage α} (hs : b.shown \ a.shown ⊆ b.dirty)
    (hd : a.dirty ⊆ b.dirty) : NotStale a b :=
  ⟨hs, fun _ hp => hd (Finset.mem_inter.mp (Finset.mem_inter.mp hp).1).2⟩

end Damage

end Nolrem.Lib
