import Mathlib

/-!
# Height-balanced trees

Binary trees whose nodes store a height. What a tree holds is its list of values from left to
right; order is a property of that list.
-/

namespace Nolrem.Lib

inductive AvlTree (α : Type) where
  | nil
  | node (left : AvlTree α) (value : α) (right : AvlTree α) (height : Int)
deriving DecidableEq, Repr

namespace AvlTree

variable {α κ : Type}

def toList : AvlTree α → List α
  | nil => []
  | node l v r _ => l.toList ++ v :: r.toList

/-- The height that is stored, 0 when there is no node. -/
def height : AvlTree α → Int
  | nil => 0
  | node _ _ _ h => h

/-- The height that the tree has. -/
def depth : AvlTree α → Nat
  | nil => 0
  | node l _ r _ => max l.depth r.depth + 1

/-- Every stored height is the true one, and the two sides of a node differ by at most 1. -/
def Avl : AvlTree α → Prop
  | nil => True
  | node l _ r h =>
    l.Avl ∧ r.Avl ∧ h = ((max l.depth r.depth + 1 : Nat) : Int) ∧
      l.depth ≤ r.depth + 1 ∧ r.depth ≤ l.depth + 1

/-- Every stored height is the true one. -/
def HeightsTrue : AvlTree α → Prop
  | nil => True
  | node l _ r h => l.HeightsTrue ∧ r.HeightsTrue ∧ h = ((max l.depth r.depth + 1 : Nat) : Int)

/-- The keys grow from left to right. -/
def Ordered [LT κ] (key : α → κ) (t : AvlTree α) : Prop :=
  t.toList.Pairwise fun a b => key a < key b

@[simp] theorem toList_nil : (nil : AvlTree α).toList = [] := rfl

@[simp] theorem toList_node (l r : AvlTree α) (v : α) (h : Int) :
    (node l v r h).toList = l.toList ++ v :: r.toList := rfl

@[simp] theorem depth_nil : (nil : AvlTree α).depth = 0 := rfl

@[simp] theorem depth_node (l r : AvlTree α) (v : α) (h : Int) :
    (node l v r h).depth = max l.depth r.depth + 1 := rfl

theorem Avl.height_eq {t : AvlTree α} (h : t.Avl) : t.height = t.depth := by
  cases t with
  | nil => rfl
  | node l v r _ => exact h.2.2.1

theorem Avl.heightsTrue {t : AvlTree α} (h : t.Avl) : t.HeightsTrue := by
  induction t with
  | nil => trivial
  | node l v r height ihl ihr => exact ⟨ihl h.1, ihr h.2.1, h.2.2.1⟩

theorem toList_eq_nil {t : AvlTree α} : t.toList = [] ↔ t = nil := by
  cases t <;> simp

/-- A balanced tree of a given height has many nodes. -/
theorem Avl.two_pow_le {t : AvlTree α} (h : t.Avl) : 2 ^ (t.depth / 2) ≤ t.toList.length + 1 := by
  induction t with
  | nil => simp
  | node l v r height ihl ihr =>
    obtain ⟨hl, hr, -, h1, h2⟩ := h
    have hsize : (node l v r height).toList.length = l.toList.length + (r.toList.length + 1) := by
      simp
    rw [depth_node, hsize]
    by_cases hsmall : max l.depth r.depth = 0
    · rw [hsmall]
      simp
    · -- both sides are at least as high as the tree less two
      have hhalf : (max l.depth r.depth + 1) / 2 = (max l.depth r.depth - 1) / 2 + 1 := by omega
      have hpl : 2 ^ ((max l.depth r.depth - 1) / 2) ≤ l.toList.length + 1 :=
        Nat.le_trans (Nat.pow_le_pow_right (by omega) (by omega)) (ihl hl)
      have hpr : 2 ^ ((max l.depth r.depth - 1) / 2) ≤ r.toList.length + 1 :=
        Nat.le_trans (Nat.pow_le_pow_right (by omega) (by omega)) (ihr hr)
      rw [hhalf, Nat.pow_succ]
      omega

/-- A balanced tree with at most `2 ^ 32` nodes. -/
theorem Avl.depth_le {t : AvlTree α} (h : t.Avl) (hlen : t.toList.length ≤ 4294967296) :
    t.depth ≤ 65 := by
  by_contra hdeep
  have hpow : 2 ^ 33 ≤ 2 ^ (t.depth / 2) := Nat.pow_le_pow_right (by omega) (by omega)
  have := h.two_pow_le
  omega

section Order

variable [LinearOrder κ] {key : α → κ} {l r : AvlTree α} {v : α} {h : Int}

theorem ordered_node : Ordered key (node l v r h) ↔
    Ordered key l ∧ Ordered key r ∧ (∀ a ∈ l.toList, key a < key v) ∧
      ∀ b ∈ r.toList, key v < key b := by
  unfold Ordered
  rw [toList_node, List.pairwise_append, List.pairwise_cons]
  constructor
  · rintro ⟨hl, ⟨hv, hr⟩, hlr⟩
    exact ⟨hl, hr, fun a ha => hlr a ha v List.mem_cons_self, hv⟩
  · rintro ⟨hl, hr, hlv, hvr⟩
    refine ⟨hl, ⟨hvr, hr⟩, fun a ha b hb => ?_⟩
    rcases List.mem_cons.mp hb with rfl | hb
    · exact hlv a ha
    · exact lt_trans (hlv a ha) (hvr b hb)

/-- Two values with the same key are the same. -/
theorem Ordered.eq_of_key_eq {t : AvlTree α} (h : Ordered key t) {a b : α} (ha : a ∈ t.toList)
    (hb : b ∈ t.toList) (hab : key a = key b) : a = b := by
  by_contra hne
  have hapart : t.toList.Pairwise fun a b => key a ≠ key b := h.imp ne_of_lt
  have : Std.Symm fun a b => key a ≠ key b := ⟨fun _ _ => Ne.symm⟩
  exact hapart.forall ha hb hne hab

theorem Ordered.nodup {t : AvlTree α} (h : Ordered key t) : t.toList.Nodup :=
  h.imp fun hlt heq => absurd (congrArg key heq) (ne_of_lt hlt)

end Order

end AvlTree

end Nolrem.Lib
