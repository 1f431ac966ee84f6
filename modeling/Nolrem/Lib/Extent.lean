import Mathlib.Data.List.Basic
import Mathlib.Data.Set.Prod
import Mathlib.Order.Interval.Set.LinearOrder
import Mathlib.Order.MinMax
import Mathlib.Tactic.Common

/-!
# The extent of a list of intervals

The least start and the greatest end of a list of intervals. Rectangles are products of two
intervals, and the extents along both axes are the smallest rectangle around a list of them.
-/

namespace Nolrem.Lib

variable {α β ι : Type*} [LinearOrder α] [LinearOrder β]

/-- `m` is the least start of the intervals, and `M` the greatest end. -/
structure IsExtent (l : List (α × α)) (m M : α) : Prop where
  start : ∃ p ∈ l, p.1 = m
  le_start : ∀ p ∈ l, m ≤ p.1
  finish : ∃ p ∈ l, p.2 = M
  finish_le : ∀ p ∈ l, p.2 ≤ M

/-- One interval more. -/
theorem IsExtent.cons {l : List (α × α)} {m M : α} (h : IsExtent l m M) (p : α × α) :
    IsExtent (p :: l) (min p.1 m) (max p.2 M) where
  start := by
    obtain ⟨q, hq, hm⟩ := h.start
    rcases min_choice p.1 m with hmin | hmin
    · exact ⟨p, List.mem_cons_self, hmin.symm⟩
    · exact ⟨q, List.mem_cons_of_mem p hq, hm.trans hmin.symm⟩
  le_start q hq := by
    rcases List.mem_cons.mp hq with rfl | hq
    · exact min_le_left _ _
    · exact (min_le_right _ _).trans (h.le_start q hq)
  finish := by
    obtain ⟨q, hq, hM⟩ := h.finish
    rcases max_choice p.2 M with hmax | hmax
    · exact ⟨p, List.mem_cons_self, hmax.symm⟩
    · exact ⟨q, List.mem_cons_of_mem p hq, hM.trans hmax.symm⟩
  finish_le q hq := by
    rcases List.mem_cons.mp hq with rfl | hq
    · exact le_max_left _ _
    · exact (h.finish_le q hq).trans (le_max_right _ _)

theorem exists_isExtent {l : List (α × α)} (hl : l ≠ []) : ∃ m M, IsExtent l m M := by
  induction l with
  | nil => exact absurd rfl hl
  | cons p l ih =>
    by_cases hnil : l = []
    · subst hnil
      exact ⟨p.1, p.2, ⟨p, List.mem_singleton_self p, rfl⟩,
        fun q hq => le_of_eq (congrArg Prod.fst (List.mem_singleton.mp hq)).symm,
        ⟨p, List.mem_singleton_self p, rfl⟩,
        fun q hq => le_of_eq (congrArg Prod.snd (List.mem_singleton.mp hq))⟩
    · obtain ⟨m, M, h⟩ := ih hnil
      exact ⟨_, _, h.cons p⟩

/-- What a loop leaves that keeps the lower of two values. -/
theorem foldl_lower_spec (f : ι → α) (l : List ι) (a : α) :
    let low := l.foldl (fun a i => if f i < a then f i else a) a
    low ≤ a ∧ (∀ i ∈ l, low ≤ f i) ∧ (low = a ∨ ∃ i ∈ l, low = f i) := by
  induction l generalizing a with
  | nil => exact ⟨le_refl a, List.forall_mem_nil _, Or.inl rfl⟩
  | cons i l ih =>
    obtain ⟨hle, hall, heq⟩ := ih (if f i < a then f i else a)
    have hstep : (if f i < a then f i else a) ≤ a ∧ (if f i < a then f i else a) ≤ f i := by
      split_ifs with hlt
      · exact ⟨le_of_lt hlt, le_refl _⟩
      · exact ⟨le_refl a, le_of_not_gt hlt⟩
    refine ⟨hle.trans hstep.1, List.forall_mem_cons.mpr ⟨hle.trans hstep.2, hall⟩, ?_⟩
    rcases heq with heq | ⟨j, hj, heq⟩
    · rw [List.foldl_cons, heq]
      split_ifs
      · exact Or.inr ⟨i, List.mem_cons_self, rfl⟩
      · exact Or.inl rfl
    · exact Or.inr ⟨j, List.mem_cons_of_mem i hj, heq⟩

/-- And one that keeps the higher. -/
theorem foldl_higher_spec (f : ι → α) (l : List ι) (a : α) :
    let high := l.foldl (fun a i => if f i > a then f i else a) a
    a ≤ high ∧ (∀ i ∈ l, f i ≤ high) ∧ (high = a ∨ ∃ i ∈ l, high = f i) :=
  @foldl_lower_spec αᵒᵈ ι _ f l a

/-! ## Rectangles -/

variable {l : List ι} {fx : ι → α × α} {fy : ι → β × β}

/-- The points of the rectangles of a list. -/
def rectUnion (l : List ι) (fx : ι → α × α) (fy : ι → β × β) : Set (α × β) :=
  { p | ∃ i ∈ l, p ∈ Set.Ico (fx i).1 (fx i).2 ×ˢ Set.Ico (fy i).1 (fy i).2 }

section Extents

variable {m M : α} {n N : β} (hx : IsExtent (l.map fx) m M) (hy : IsExtent (l.map fy) n N)
  (hup : ∀ i ∈ l, (fx i).1 < (fx i).2 ∧ (fy i).1 < (fy i).2)

include hx hy hup

/-- A rectangle is around the list, if and only if it is around the extents. -/
theorem rectUnion_subset_iff {a b : α} {c d : β} :
    rectUnion l fx fy ⊆ Set.Ico a b ×ˢ Set.Ico c d ↔ (a ≤ m ∧ M ≤ b) ∧ c ≤ n ∧ N ≤ d := by
  constructor
  · intro hsub
    have hone : ∀ i ∈ l, (a ≤ (fx i).1 ∧ (fx i).2 ≤ b) ∧ c ≤ (fy i).1 ∧ (fy i).2 ≤ d := by
      intro i hi
      obtain ⟨hix, hiy⟩ := hup i hi
      have hne : (Set.Ico (fx i).1 (fx i).2 ×ˢ Set.Ico (fy i).1 (fy i).2).Nonempty :=
        Set.Nonempty.prod ⟨_, le_refl _, hix⟩ ⟨_, le_refl _, hiy⟩
      obtain ⟨h1, h2⟩ := (Set.prod_subset_prod_iff' hne).mp fun p hp => hsub ⟨i, hi, hp⟩
      exact ⟨(Set.Ico_subset_Ico_iff hix).mp h1, (Set.Ico_subset_Ico_iff hiy).mp h2⟩
    refine ⟨⟨?_, ?_⟩, ?_, ?_⟩
    · obtain ⟨p, hp, rfl⟩ := hx.start
      obtain ⟨i, hi, rfl⟩ := List.mem_map.mp hp
      exact (hone i hi).1.1
    · obtain ⟨p, hp, rfl⟩ := hx.finish
      obtain ⟨i, hi, rfl⟩ := List.mem_map.mp hp
      exact (hone i hi).1.2
    · obtain ⟨p, hp, rfl⟩ := hy.start
      obtain ⟨i, hi, rfl⟩ := List.mem_map.mp hp
      exact (hone i hi).2.1
    · obtain ⟨p, hp, rfl⟩ := hy.finish
      obtain ⟨i, hi, rfl⟩ := List.mem_map.mp hp
      exact (hone i hi).2.2
  · rintro ⟨⟨ha, hb⟩, hc, hd⟩ p ⟨i, hi, ⟨h1, h2⟩, h3, h4⟩
    have hix := List.mem_map_of_mem (f := fx) hi
    have hiy := List.mem_map_of_mem (f := fy) hi
    exact ⟨⟨(ha.trans (hx.le_start _ hix)).trans h1,
        (h2.trans_le (hx.finish_le _ hix)).trans_le hb⟩,
      (hc.trans (hy.le_start _ hiy)).trans h3, (h4.trans_le (hy.finish_le _ hiy)).trans_le hd⟩

/-- The smallest rectangle around the list is that of the extents, and no other. -/
theorem rectUnion_smallest_iff (hl : l ≠ []) {a b : α} {c d : β} :
    (rectUnion l fx fy ⊆ Set.Ico a b ×ˢ Set.Ico c d ∧
        ∀ a' b' c' d', rectUnion l fx fy ⊆ Set.Ico a' b' ×ˢ Set.Ico c' d' →
          Set.Ico a b ×ˢ Set.Ico c d ⊆ Set.Ico a' b' ×ˢ Set.Ico c' d') ↔
      (a = m ∧ b = M) ∧ c = n ∧ d = N := by
  simp only [rectUnion_subset_iff hx hy hup]
  constructor
  · rintro ⟨⟨⟨ham, hMb⟩, hcn, hNd⟩, hleast⟩
    obtain ⟨i, hi⟩ := List.exists_mem_of_ne_nil l hl
    have hmM : m < M := ((hx.le_start _ (List.mem_map_of_mem hi)).trans_lt (hup i hi).1).trans_le
      (hx.finish_le _ (List.mem_map_of_mem hi))
    have hnN : n < N := ((hy.le_start _ (List.mem_map_of_mem hi)).trans_lt (hup i hi).2).trans_le
      (hy.finish_le _ (List.mem_map_of_mem hi))
    have hab : a < b := (ham.trans_lt hmM).trans_le hMb
    have hcd : c < d := (hcn.trans_lt hnN).trans_le hNd
    have hne : (Set.Ico a b ×ˢ Set.Ico c d).Nonempty :=
      Set.Nonempty.prod ⟨a, le_refl a, hab⟩ ⟨c, le_refl c, hcd⟩
    have hin := hleast m M n N ⟨⟨le_refl m, le_refl M⟩, le_refl n, le_refl N⟩
    obtain ⟨h1, h2⟩ := (Set.prod_subset_prod_iff' hne).mp hin
    obtain ⟨hma, hbM⟩ := (Set.Ico_subset_Ico_iff hab).mp h1
    obtain ⟨hnc, hdN⟩ := (Set.Ico_subset_Ico_iff hcd).mp h2
    exact ⟨⟨le_antisymm ham hma, le_antisymm hbM hMb⟩, le_antisymm hcn hnc, le_antisymm hdN hNd⟩
  · rintro ⟨⟨rfl, rfl⟩, rfl, rfl⟩
    refine ⟨⟨⟨le_refl a, le_refl b⟩, le_refl c, le_refl d⟩, ?_⟩
    rintro a' b' c' d' ⟨⟨ha, hb⟩, hc, hd⟩
    exact Set.prod_mono (Set.Ico_subset_Ico ha hb) (Set.Ico_subset_Ico hc hd)

end Extents

end Nolrem.Lib
