import Mathlib.Data.List.Perm.Basic
import Mathlib.Tactic.Common

/-!
# Bubble sort

Neighbours of a list are exchanged where a comparator says so. With a comparator that is a total
preorder the list becomes sorted, and elements that compare equal stay in order.
-/

namespace Nolrem.Lib

variable {α : Type*} (cmp : α → α → Int)

/-- A comparator that orders every two elements, some perhaps equally. -/
structure TotalPreorder : Prop where
  trans : ∀ {a b c}, cmp a b ≤ 0 → cmp b c ≤ 0 → cmp a c ≤ 0
  total : ∀ a b, cmp a b ≤ 0 ∨ cmp b a ≤ 0

/-- Neither comes before the other. -/
def compareEqual (a b : α) : Bool := cmp a b ≤ 0 ∧ cmp b a ≤ 0

/-- The elements `j` and `j + 1` are exchanged if the comparator says so. -/
def compareSwap : Nat → List α → List α
  | 0, a :: b :: l => if 0 < cmp a b then b :: a :: l else a :: b :: l
  | j + 1, a :: l => a :: compareSwap j l
  | _, l => l

/-- The first `m` pairs of neighbours, from the front on. -/
def bubblePass (m : Nat) (l : List α) : List α :=
  (List.range m).foldl (fun l j => compareSwap cmp j l) l

/-- The passes, each of them shorter than the one before. -/
def bubbleSort (l : List α) : List α :=
  (List.range (l.length - 1)).foldl (fun r i => bubblePass cmp (l.length - i - 1) r) l

/-! ## A pass by recursion -/

/-- A pass carries the greater of two neighbours on. -/
def bubble : Nat → List α → List α
  | m + 1, a :: b :: l => if 0 < cmp a b then b :: bubble m (a :: l) else a :: bubble m (b :: l)
  | _, l => l

variable {cmp}

@[simp] theorem length_compareSwap (j : Nat) (l : List α) :
    (compareSwap cmp j l).length = l.length := by
  fun_induction compareSwap with simp_all

@[simp] theorem length_foldl_compareSwap (js : List Nat) (l : List α) :
    (js.foldl (fun l j => compareSwap cmp j l) l).length = l.length := by
  induction js generalizing l with
  | nil => rfl
  | cons j js ih => exact (ih _).trans (length_compareSwap j l)

theorem compareSwap_eq {j : Nat} {l : List α} (h : j + 1 < l.length) :
    compareSwap cmp j l =
      if 0 < cmp l[j] l[j + 1] then (l.set j l[j + 1]).set (j + 1) l[j] else l := by
  fun_induction compareSwap cmp j l with
  | case1 a b l hgt => exact (if_pos hgt).symm
  | case2 a b l hle => exact (if_neg hle).symm
  | case3 j a l ih =>
    rw [ih (Nat.lt_of_succ_lt_succ h)]
    simp only [List.getElem_cons_succ, List.set_cons_succ]
    split_ifs <;> rfl
  | case4 j l h0 h1 =>
    match j, l, h with
    | 0, a :: b :: l, _ => exact absurd rfl (h0 a b l rfl)
    | j + 1, a :: l, _ => exact absurd rfl (h1 j a l rfl)

theorem foldl_compareSwap_succ (js : List Nat) (a : α) (l : List α) :
    (js.map (· + 1)).foldl (fun l j => compareSwap cmp j l) (a :: l) =
      a :: js.foldl (fun l j => compareSwap cmp j l) l := by
  induction js generalizing l with
  | nil => rfl
  | cons j js ih => exact ih (compareSwap cmp j l)

theorem bubblePass_eq (m : Nat) (l : List α) : bubblePass cmp m l = bubble cmp m l := by
  have hshort (m : Nat) (l : List α) (hl : l.length ≤ 1) : bubblePass cmp m l = l := by
    unfold bubblePass
    induction m with
    | zero => rfl
    | succ m ih =>
      rw [List.range_succ, List.foldl_append, ih]
      match m, l, hl with
      | 0, [], _ => rfl
      | m + 1, [], _ => rfl
      | 0, [a], _ => rfl
      | 1, [a], _ => rfl
      | m + 2, [a], _ => rfl
  induction m generalizing l with
  | zero => cases l <;> rfl
  | succ m ih =>
    match l with
    | [] => exact hshort _ _ (Nat.zero_le 1)
    | [a] => exact hshort _ _ (Nat.le_refl 1)
    | a :: b :: l =>
      have hstep : bubblePass cmp (m + 1) (a :: b :: l) =
          (List.map (· + 1) (List.range m)).foldl (fun l j => compareSwap cmp j l)
            (if 0 < cmp a b then b :: a :: l else a :: b :: l) := by
        unfold bubblePass
        rw [List.range_succ_eq_map, List.foldl_cons]
        rfl
      rw [hstep, bubble]
      split_ifs
      · rw [foldl_compareSwap_succ]
        exact congrArg _ (ih (a :: l))
      · rw [foldl_compareSwap_succ]
        exact congrArg _ (ih (b :: l))

/-! ## What a pass does -/

theorem bubble_perm (m : Nat) (l : List α) : (bubble cmp m l).Perm l := by
  fun_induction bubble cmp m l with
  | case1 m a b l h ih => exact (ih.cons b).trans (List.Perm.swap a b l)
  | case2 m a b l h ih => exact ih.cons a
  | case3 => exact List.Perm.refl _

theorem bubble_append {m : Nat} {l : List α} (h : m < l.length) (s : List α) :
    bubble cmp m (l ++ s) = bubble cmp m l ++ s := by
  fun_induction bubble cmp m l with
  | case1 m a b l hgt ih =>
    have hlen : m < (a :: l).length := Nat.lt_of_succ_lt_succ h
    rw [List.cons_append, List.cons_append, bubble, if_pos hgt, ← List.cons_append, ih hlen]
    rfl
  | case2 m a b l hle ih =>
    have hlen : m < (b :: l).length := Nat.lt_of_succ_lt_succ h
    rw [List.cons_append, List.cons_append, bubble, if_neg hle, ← List.cons_append, ih hlen]
    rfl
  | case3 m l hno =>
    match m, l, h with
    | 0, a :: l, _ => rfl
    | m + 1, a :: b :: l, _ => exact absurd rfl (hno m a b l rfl)

/-- The last element that a pass reaches is the greatest of them. -/
theorem bubble_last (hcmp : TotalPreorder cmp) (m : Nat) (l : List α) (h : l.length = m + 1) :
    ∃ q z, bubble cmp m l = q ++ [z] ∧ ∀ a ∈ q, cmp a z ≤ 0 := by
  have hmem {m : Nat} {l q : List α} {z b : α} (hq : bubble cmp m l = q ++ [z])
      (hall : ∀ a ∈ q, cmp a z ≤ 0) (hb : b ∈ l) : cmp b z ≤ 0 := by
    rcases List.mem_append.mp (hq ▸ (bubble_perm m l).mem_iff.mpr hb) with hb | hb
    · exact hall b hb
    · obtain rfl := List.mem_singleton.mp hb
      exact (hcmp.total b b).elim id id
  induction m generalizing l with
  | zero =>
    obtain ⟨a, rfl⟩ := List.length_eq_one_iff.mp h
    exact ⟨[], a, rfl, nofun⟩
  | succ m ih =>
    match l, h with
    | a :: b :: l, h =>
      rw [bubble]
      split_ifs with hgt
      · obtain ⟨q, z, hq, hall⟩ := ih (a :: l) (Nat.succ.inj h)
        refine ⟨b :: q, z, by rw [hq, List.cons_append], List.forall_mem_cons.mpr ⟨?_, hall⟩⟩
        have hba : cmp b a ≤ 0 := (hcmp.total a b).resolve_left (Int.not_le.mpr hgt)
        exact hcmp.trans hba (hmem hq hall List.mem_cons_self)
      · obtain ⟨q, z, hq, hall⟩ := ih (b :: l) (Nat.succ.inj h)
        refine ⟨a :: q, z, by rw [hq, List.cons_append], List.forall_mem_cons.mpr ⟨?_, hall⟩⟩
        exact hcmp.trans (Int.not_lt.mp hgt) (hmem hq hall List.mem_cons_self)

theorem bubble_filter (hcmp : TotalPreorder cmp) (c : α) (m : Nat) (l : List α) :
    (bubble cmp m l).filter (compareEqual cmp c) = l.filter (compareEqual cmp c) := by
  fun_induction bubble cmp m l with
  | case1 m a b l hgt ih =>
    -- two elements that are exchanged are not both equal to `c`
    have hne : ¬ (compareEqual cmp c a = true ∧ compareEqual cmp c b = true) := by
      rintro ⟨ha, hb⟩
      rw [compareEqual, decide_eq_true_eq] at ha hb
      exact absurd (hcmp.trans ha.2 hb.1) (Int.not_le.mpr hgt)
    rw [List.filter_cons, ih]
    simp only [List.filter_cons]
    split_ifs with hb ha
    · exact absurd ⟨ha, hb⟩ hne
    all_goals rfl
  | case2 m a b l hle ih => rw [List.filter_cons, ih, ← List.filter_cons]
  | case3 => rfl

/-! ## All of the passes -/

/-- The elements from number `k` on are in their places. -/
def Settled (cmp : α → α → Int) (k : Nat) (l : List α) : Prop :=
  ∃ p s, l = p ++ s ∧ p.length = k ∧ s.Pairwise (fun a b => cmp a b ≤ 0) ∧
    ∀ a ∈ p, ∀ b ∈ s, cmp a b ≤ 0

theorem Settled.pass (hcmp : TotalPreorder cmp) {m : Nat} {l : List α}
    (h : Settled cmp (m + 1) l) : Settled cmp m (bubble cmp m l) := by
  obtain ⟨p, s, rfl, hlen, hs, hps⟩ := h
  obtain ⟨q, z, hq, hall⟩ := bubble_last hcmp m p hlen
  have hperm : (q ++ [z]).Perm p := hq ▸ bubble_perm m p
  have hmem {a : α} (ha : a ∈ q ++ [z]) : a ∈ p := hperm.mem_iff.mp ha
  have hqlen : q.length = m := by
    have := hperm.length_eq
    rw [List.length_append, List.length_singleton, hlen] at this
    exact Nat.succ.inj this
  refine ⟨q, z :: s, ?_, hqlen, List.pairwise_cons.mpr ⟨fun b hb => ?_, hs⟩, fun a ha => ?_⟩
  · rw [bubble_append (by omega), hq, List.append_assoc]
    rfl
  · exact hps z (hmem (List.mem_append_right _ (List.mem_singleton_self z))) b hb
  · refine List.forall_mem_cons.mpr ⟨hall a ha, fun b hb => ?_⟩
    exact hps a (hmem (List.mem_append_left _ ha)) b hb

theorem settled_length (l : List α) : Settled cmp l.length l :=
  ⟨l, [], (List.append_nil l).symm, rfl, List.Pairwise.nil, fun _ _ => nofun⟩

/-- After `k` passes the last `k` elements are in their places. -/
theorem settled_passes (hcmp : TotalPreorder cmp) (l : List α) (k : Nat) (hk : k < l.length) :
    Settled cmp (l.length - k)
      ((List.range k).foldl (fun r i => bubblePass cmp (l.length - i - 1) r) l) := by
  induction k with
  | zero => exact settled_length l
  | succ k ih =>
    rw [List.range_succ, List.foldl_append]
    show Settled cmp _ (bubblePass cmp (l.length - k - 1) _)
    rw [bubblePass_eq]
    have hprev := ih (Nat.lt_of_succ_lt hk)
    rw [show l.length - k = l.length - k - 1 + 1 by omega] at hprev
    exact hprev.pass hcmp

/-- What holds of every pass holds of all of them. -/
theorem passes_induction {P : List α → Prop} {l : List α} (h0 : P l)
    (hstep : ∀ m r, P r → P (bubble cmp m r)) (n : Nat) (is : List Nat) :
    P (is.foldl (fun r i => bubblePass cmp (n - i - 1) r) l) := by
  induction is generalizing l with
  | nil => exact h0
  | cons i is ih =>
    refine ih ?_
    show P (bubblePass cmp (n - i - 1) l)
    rw [bubblePass_eq]
    exact hstep _ l h0

theorem passes_perm (n : Nat) (is : List Nat) (l : List α) :
    (is.foldl (fun r i => bubblePass cmp (n - i - 1) r) l).Perm l :=
  passes_induction (P := fun r => r.Perm l) (List.Perm.refl l)
    (fun m r hr => (bubble_perm m r).trans hr) n is

theorem bubbleSort_perm (l : List α) : (bubbleSort cmp l).Perm l := passes_perm _ _ l

theorem bubbleSort_filter (hcmp : TotalPreorder cmp) (c : α) (l : List α) :
    (bubbleSort cmp l).filter (compareEqual cmp c) = l.filter (compareEqual cmp c) :=
  passes_induction (P := fun r => r.filter (compareEqual cmp c) = l.filter (compareEqual cmp c))
    rfl (fun m r hr => (bubble_filter hcmp c m r).trans hr) _ _

theorem bubbleSort_sorted (hcmp : TotalPreorder cmp) (l : List α) :
    (bubbleSort cmp l).Pairwise fun a b => cmp a b ≤ 0 := by
  by_cases h0 : l = []
  · subst h0
    exact List.Pairwise.nil
  have hpos : 0 < l.length := List.length_pos_iff.mpr h0
  obtain ⟨p, s, heq, hlen, hs, hps⟩ := settled_passes hcmp l (l.length - 1) (by omega)
  obtain ⟨a, rfl⟩ := List.length_eq_one_iff.mp (show p.length = 1 by omega)
  unfold bubbleSort
  rw [heq]
  exact List.pairwise_cons.mpr ⟨hps a (List.mem_singleton_self a), hs⟩

end Nolrem.Lib
