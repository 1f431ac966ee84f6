import Mathlib.Algebra.BigOperators.Group.List.Basic
import Mathlib.Algebra.Order.Group.Int
import Mathlib.Algebra.Ring.Int.Parity
import Mathlib.Algebra.Ring.Parity
import Mathlib.Data.List.Rotate
import Mathlib.Tactic.Common

/-!
# Fill rules

What a row has between the points where closed curves cross it. The points come in order, and each
of them may have a direction.
-/

namespace Nolrem.Lib

variable {α G : Type*}

/-! ## Spans -/

section Spans

variable [LinearOrder α] {x : α}

/-- Every second point begins a span. -/
def evenOdd : List α → List (α × α)
  | a :: b :: l => if a = b then evenOdd l else (a, b) :: evenOdd l
  | _ => []

/-- A span begins at `s`, where the sum of the directions leaves 0; it is `w` so far. -/
def nonZero [AddGroup G] [DecidableEq G] : G → α → List (α × G) → List (α × α)
  | _, _, [] => []
  | w, s, (a, d) :: l =>
    let s := if w = 0 then a else s
    if w + d = 0 ∧ s < a then (s, a) :: nonZero (w + d) s l else nonZero (w + d) s l

/-- One of the spans has the point, which is not the end of it. -/
def InSpans (spans : List (α × α)) (x : α) : Prop := ∃ s ∈ spans, s.1 ≤ x ∧ x < s.2

theorem inSpans_nil : ¬ InSpans [] x := nofun

theorem inSpans_cons {s : α × α} {spans : List (α × α)} :
    InSpans (s :: spans) x ↔ s.1 ≤ x ∧ x < s.2 ∨ InSpans spans x := List.exists_mem_cons_iff ..

theorem inSpans_ite {p : Prop} [Decidable p] {s : α × α} {spans : List (α × α)} :
    InSpans (if p then s :: spans else spans) x ↔
      p ∧ s.1 ≤ x ∧ x < s.2 ∨ InSpans spans x := by
  split_ifs with hp
  · rw [inSpans_cons, and_iff_right hp]
  · exact (or_iff_right fun h => hp h.1).symm

theorem countP_le_eq_zero {l : List α} (h : ∀ y ∈ l, x < y) : l.countP (· ≤ x) = 0 :=
  List.countP_eq_zero.mpr fun y hy => by simpa using h y hy

theorem filter_le_eq_nil {l : List (α × G)} (h : ∀ p ∈ l, x < p.1) :
    l.filter (fun p => p.1 ≤ x) = [] :=
  List.filter_eq_nil_iff.mpr fun p hp => by simpa using h p hp

theorem evenOdd_cons_cons (a b : α) (l : List α) :
    evenOdd (a :: b :: l) = if a ≠ b then (a, b) :: evenOdd l else evenOdd l := by
  rw [evenOdd, ite_not]

/-- **Even-odd.** The spans have the points with an odd number of crossings up to them. -/
theorem inSpans_evenOdd {l : List α} (h : l.Pairwise (· ≤ ·)) (heven : Even l.length) :
    InSpans (evenOdd l) x ↔ Odd (l.countP (· ≤ x)) := by
  induction l using List.twoStepInduction with
  | nil => exact iff_of_false inSpans_nil (by simp)
  | singleton a => simp at heven
  | cons_cons a b l ih _ =>
    obtain ⟨ha, hb, hl⟩ := (List.pairwise_cons.trans (and_congr_right' List.pairwise_cons)).mp h
    have hab : a ≤ b := ha b List.mem_cons_self
    have hrest := ih hl (by simpa [Nat.even_add_one] using heven)
    rw [evenOdd_cons_cons, inSpans_ite, hrest, List.countP_cons, List.countP_cons]
    simp only [decide_eq_true_eq]
    rcases lt_or_ge x b with hxb | hbx
    · -- none of the points behind the two is reached
      rw [countP_le_eq_zero fun y hy => hxb.trans_le (hb y hy), if_neg hxb.not_ge]
      by_cases hax : a ≤ x
      · simp [hax, hxb, (hax.trans_lt hxb).ne]
      · simp [hax]
    · rw [if_pos hbx, if_pos (hab.trans hbx), Nat.add_assoc, Nat.odd_add]
      simp [hbx.not_gt]

theorem length_evenOdd (l : List α) : 2 * (evenOdd l).length ≤ l.length := by
  fun_induction evenOdd l with
  | case1 b l ih => simp only [List.length_cons]; omega
  | case2 a b l hne ih => simp only [List.length_cons]; omega
  | case3 => exact Nat.zero_le _

/--
**Non-zero.** The spans have the points up to which the sum of the directions is not 0, if all
together it is 0.
-/
theorem inSpans_nonZero [AddGroup G] [DecidableEq G] {l : List (α × G)} {w : G} {s : α}
    (h : l.Pairwise fun p q => p.1 ≤ q.1)
    (hs : w ≠ 0 → ∀ p ∈ l, s ≤ p.1) (hsum : w + (l.map Prod.snd).sum = 0) :
    InSpans (nonZero w s l) x ↔
      (w ≠ 0 → s ≤ x) ∧ w + ((l.filter fun p => p.1 ≤ x).map Prod.snd).sum ≠ 0 := by
  induction l generalizing w s with
  | nil =>
    refine iff_of_false inSpans_nil fun hne => hne.2 ?_
    simpa using hsum
  | cons p l ih =>
    obtain ⟨a, d⟩ := p
    obtain ⟨ha, hl⟩ := List.pairwise_cons.mp h
    rw [List.map_cons, List.sum_cons, ← add_assoc] at hsum
    rw [nonZero]
    have hsa : (if w = 0 then a else s) ≤ a := by
      split_ifs with hw
      · exact le_rfl
      · exact hs hw _ List.mem_cons_self
    have hstart : (if w = 0 then a else s) ≤ x ↔ (w ≠ 0 → s ≤ x) ∧ (w = 0 → a ≤ x) := by
      split_ifs with hw <;> simp [hw]
    generalize (if w = 0 then a else s) = t at hsa hstart
    rw [inSpans_ite, ih hl (fun _ p hp => hsa.trans (ha p hp)) hsum, List.filter_cons]
    simp only [decide_eq_true_eq]
    rcases lt_or_ge x a with hxa | hax
    · -- nothing more is reached: the point is in the span if that has begun
      rw [filter_le_eq_nil fun p hp => hxa.trans_le (ha p hp), if_neg hxa.not_ge, List.map_nil,
        List.sum_nil, add_zero, add_zero]
      have ht : t ≤ x ↔ (w ≠ 0 → s ≤ x) ∧ w ≠ 0 :=
        hstart.trans (and_congr_right' ⟨fun h hw => hxa.not_ge (h hw), fun h hw => absurd hw h⟩)
      rw [← ht]
      by_cases hback : w + d = 0
      · simp only [hback, ne_eq, not_true_eq_false, and_false, or_false, true_and]
        exact ⟨fun h => h.2.1, fun h => ⟨h.trans_lt hxa, h, hxa⟩⟩
      · simp [hback]
    · have ht : t ≤ x := hsa.trans hax
      rw [if_pos hax, List.map_cons, List.sum_cons, ← add_assoc, and_iff_right (hstart.mp ht).1]
      simp only [hax.not_gt, and_false, false_or, ht, implies_true, true_and]

theorem length_nonZero [AddGroup G] [DecidableEq G] (w : G) (s : α) (l : List (α × G)) :
    2 * (nonZero w s l).length ≤ l.length + if w = 0 then 0 else 1 := by
  induction l generalizing w s with
  | nil => exact Nat.zero_le _
  | cons p l ih =>
    obtain ⟨a, d⟩ := p
    have hrest := ih (w + d) (if w = 0 then a else s)
    have hle : (if w + d = 0 then 0 else 1) ≤ 1 := by split_ifs <;> decide
    rw [nonZero, List.length_cons]
    by_cases hw : w = 0
    · -- the point begins a span and does not end one
      simp only [hw, if_true, lt_irrefl, and_false, if_false] at hrest hle ⊢
      omega
    · simp only [hw, if_false] at hrest ⊢
      split_ifs with hspan
      · rw [if_pos hspan.1] at hrest
        rw [List.length_cons]
        omega
      · omega

/-- The spans do not overlap, and each has a place of its own. -/
theorem length_evenOdd_le {l : List Int} {lo hi : Int} (h : l.Pairwise (· ≤ ·)) (hle : lo ≤ hi)
    (hl : ∀ a ∈ l, lo ≤ a ∧ a ≤ hi) : ((evenOdd l).length : Int) ≤ hi - lo := by
  induction l using List.twoStepInduction generalizing lo with
  | nil => exact Int.sub_nonneg_of_le hle
  | singleton a => exact Int.sub_nonneg_of_le hle
  | cons_cons a b l ih _ =>
    obtain ⟨ha, hb, hrest⟩ := (List.pairwise_cons.trans (and_congr_right' List.pairwise_cons)).mp h
    obtain ⟨hia, hib, hil⟩ :=
      (List.forall_mem_cons.trans (and_congr_right' List.forall_mem_cons)).mp hl
    have hlen := ih hrest hib.2 fun c hc => ⟨hb c hc, (hil c hc).2⟩
    have hab := ha b List.mem_cons_self
    rw [evenOdd_cons_cons]
    split_ifs with hne
    · rw [List.length_cons]
      omega
    · omega

theorem length_nonZero_le [AddGroup G] [DecidableEq G] {l : List (Int × G)} {w : G} {s lo hi : Int}
    (h : l.Pairwise fun p q => p.1 ≤ q.1) (hle : lo ≤ hi) (hs : w ≠ 0 → lo ≤ s)
    (hl : ∀ p ∈ l, lo ≤ p.1 ∧ p.1 ≤ hi) : ((nonZero w s l).length : Int) ≤ hi - lo := by
  induction l generalizing w s lo with
  | nil => exact Int.sub_nonneg_of_le hle
  | cons p l ih =>
    obtain ⟨a, d⟩ := p
    obtain ⟨ha, hrest⟩ := List.pairwise_cons.mp h
    obtain ⟨hia, hil⟩ := List.forall_mem_cons.mp hl
    have hstart : lo ≤ if w = 0 then a else s := by
      split_ifs with hw
      · exact hia.1
      · exact hs hw
    rw [nonZero]
    generalize (if w = 0 then a else s) = t at hstart
    split_ifs with hspan
    · -- the next span begins behind the end of this one
      have hlen := ih (w := w + d) (s := t) hrest hia.2 (fun hw => absurd hspan.1 hw)
        fun p hp => ⟨ha p hp, (hil p hp).2⟩
      rw [List.length_cons]
      dsimp only at hlen hia
      omega
    · exact ih hrest hle (fun _ => hstart) hil

end Spans

/-! ## Closed curves -/

theorem sum_zip_sub [AddCommGroup G] (f : α → G) {l l' : List α} (h : l.length = l'.length) :
    ((l.zip l').map fun p => f p.1 - f p.2).sum = (l.map f).sum - (l'.map f).sum := by
  induction l generalizing l' with
  | nil =>
    obtain rfl := List.length_eq_zero_iff.mp h.symm
    simp
  | cons a l ih =>
    obtain ⟨b, l', rfl⟩ := List.exists_cons_of_length_eq_add_one h.symm
    rw [List.zip_cons_cons, List.map_cons, List.sum_cons, ih (Nat.succ.inj h), List.map_cons,
      List.map_cons, List.sum_cons, List.sum_cons, add_sub_add_comm]

theorem sum_map_filter [AddMonoid G] (p : α → Prop) [DecidablePred p] (f : α → G) (l : List α) :
    ((l.filter p).map f).sum = (l.map fun a => if p a then f a else 0).sum := by
  induction l with
  | nil => rfl
  | cons a l ih =>
    rw [List.filter_cons, List.map_cons, List.sum_cons, ← ih]
    by_cases ha : p a <;> simp [ha]

/-- Around a closed curve, the differences add up to 0. -/
theorem sum_zip_rotate [AddCommGroup G] (f : α → G) (l : List α) (n : Nat) :
    ((l.zip (l.rotate n)).map fun p => f p.1 - f p.2).sum = 0 := by
  rw [sum_zip_sub f (List.length_rotate ..).symm, ((List.rotate_perm l n).map f).sum_eq, sub_self]

/-- As many odd numbers as have an even sum. -/
theorem even_length_of_odd {l : List Int} (h : ∀ d ∈ l, Odd d) : Even l.length ↔ Even l.sum := by
  induction l with
  | nil => simp
  | cons d l ih =>
    obtain ⟨hd, hl⟩ := List.forall_mem_cons.mp h
    rw [List.length_cons, Nat.even_add_one, ih hl, List.sum_cons, Int.even_add,
      iff_false_left (Int.not_even_iff_odd.mpr hd)]

end Nolrem.Lib
