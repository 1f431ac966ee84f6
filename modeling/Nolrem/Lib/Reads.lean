import Mathlib.Tactic.Common

/-!
# Programs that read memory

A value together with the addresses that were read to compute it, in order.
-/

namespace Nolrem.Lib

structure Reads (α : Type) where
  value : α
  reads : List Nat

namespace Reads

variable {α β : Type} {m : Reads α} {f : α → Reads β} {n : Nat}

instance : Monad Reads where
  pure a := ⟨a, []⟩
  bind m f := ⟨(f m.value).value, m.reads ++ (f m.value).reads⟩

@[simp] theorem value_pure (a : α) : (pure a : Reads α).value = a := rfl

@[simp] theorem value_bind : (m >>= f).value = (f m.value).value := rfl

/-- Every address that is read is below `n`. -/
def Inside (n : Nat) (m : Reads α) : Prop := ∀ r ∈ m.reads, r < n

@[simp] theorem inside_pure (a : α) : (pure a : Reads α).Inside n :=
  fun _ hr => absurd hr List.not_mem_nil

@[simp] theorem inside_bind : (m >>= f).Inside n ↔ m.Inside n ∧ (f m.value).Inside n :=
  List.forall_mem_append

theorem inside_ite {c : Prop} [Decidable c] {m' : Reads α} :
    (if c then m else m').Inside n ↔ (c → m.Inside n) ∧ (¬ c → m'.Inside n) := by
  split_ifs with h <;> simp [h]

section Loops

variable {σ : Type} {g : σ → α → Reads σ} {l : List α}

/-- A loop computes what the loop over the values does. -/
@[simp] theorem value_foldlM (s : σ) :
    (l.foldlM g s).value = l.foldl (fun s a => (g s a).value) s := by
  induction l generalizing s with
  | nil => rfl
  | cons a l ih => rw [List.foldlM_cons, value_bind, ih, List.foldl_cons]

/-- A loop reads inside when every round does that starts in the invariant. -/
theorem inside_foldlM (I : σ → Prop)
    (h : ∀ s a, a ∈ l → I s → (g s a).Inside n ∧ I (g s a).value) {s : σ} (hs : I s) :
    (l.foldlM g s).Inside n := by
  induction l generalizing s with
  | nil => exact inside_pure s
  | cons a l ih =>
    obtain ⟨hin, hnext⟩ := h s a List.mem_cons_self hs
    rw [List.foldlM_cons, inside_bind]
    exact ⟨hin, ih (fun s b hb => h s b (List.mem_cons_of_mem a hb)) hnext⟩

end Loops

end Reads

/-! ## Reads of numbers -/

/-- One byte of `mem`. -/
def byteAt (mem : Nat → Nat) (x : Nat) : Reads Nat := ⟨mem x, [x]⟩

/-- Two bytes, the lower one first. -/
def le16 (mem : Nat → Nat) (x : Nat) : Reads Nat := do
  let lo ← byteAt mem x
  let hi ← byteAt mem (x + 1)
  pure (lo + 256 * hi)

/-- Four bytes, the lowest one first. -/
def le32 (mem : Nat → Nat) (x : Nat) : Reads Nat := do
  let lo ← le16 mem x
  let hi ← le16 mem (x + 2)
  pure (lo + 65536 * hi)

section Numbers

variable {mem : Nat → Nat} {n x : Nat}

@[simp] theorem value_byteAt : (byteAt mem x).value = mem x := rfl

@[simp] theorem inside_byteAt : (byteAt mem x).Inside n ↔ x < n := by
  simp [Reads.Inside, byteAt]

@[simp] theorem inside_le16 : (le16 mem x).Inside n ↔ x + 2 ≤ n := by
  simp only [le16, Reads.inside_bind, inside_byteAt, Reads.inside_pure, and_true]
  omega

@[simp] theorem inside_le32 : (le32 mem x).Inside n ↔ x + 4 ≤ n := by
  simp only [le32, Reads.inside_bind, inside_le16, Reads.inside_pure, and_true]
  omega

end Numbers

end Nolrem.Lib
