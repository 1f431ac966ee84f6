import Mathlib.Data.List.Nodup
import Mathlib.Tactic.Common

/-!
# Singly linked lists

A linked list in memory is a successor function `next` and a first node. `Seg next s l e`
says that following `next` from `s` visits the nodes `l` and then arrives at `e`; a `Chain`
is a segment that ends in `none`. A chain is finite, so it is acyclic and its nodes are
distinct.
-/

namespace Nolrem.Lib

variable {α : Type*} {next next' : α → Option α}

/-- From `s` the nodes `l` are visited, and then `e` is next. -/
def Seg (next : α → Option α) : Option α → List α → Option α → Prop
  | s, [], e => s = e
  | s, a :: l, e => s = some a ∧ Seg next (next a) l e

/-- From `s` exactly the nodes `l` are visited. -/
def Chain (next : α → Option α) (s : Option α) (l : List α) : Prop := Seg next s l none

@[simp] theorem seg_nil {s e : Option α} : Seg next s [] e ↔ s = e := Iff.rfl

@[simp] theorem seg_cons {s e : Option α} {a : α} {l : List α} :
    Seg next s (a :: l) e ↔ s = some a ∧ Seg next (next a) l e := Iff.rfl

@[simp] theorem chain_nil {s : Option α} : Chain next s [] ↔ s = none := Iff.rfl

@[simp] theorem chain_cons {s : Option α} {a : α} {l : List α} :
    Chain next s (a :: l) ↔ s = some a ∧ Chain next (next a) l := Iff.rfl

theorem seg_append {e : Option α} {l' : List α} : ∀ {l : List α} {s : Option α},
    Seg next s (l ++ l') e ↔ ∃ m, Seg next s l m ∧ Seg next m l' e
  | [], s => by simp
  | a :: l, s => by
    simp only [List.cons_append, seg_cons, seg_append (l := l)]
    constructor
    · rintro ⟨hs, m, h1, h2⟩
      exact ⟨m, ⟨hs, h1⟩, h2⟩
    · rintro ⟨m, ⟨hs, h1⟩, h2⟩
      exact ⟨hs, m, h1, h2⟩

/-- A chain cut at one of its nodes. -/
theorem chain_append_cons {s : Option α} {l r : List α} {a : α} :
    Chain next s (l ++ a :: r) ↔ Seg next s l (some a) ∧ Chain next (next a) r := by
  unfold Chain
  rw [seg_append]
  constructor
  · rintro ⟨m, h1, rfl, h2⟩
    exact ⟨h1, h2⟩
  · rintro ⟨h1, h2⟩
    exact ⟨some a, h1, rfl, h2⟩

/-- Only the successors of the nodes themselves matter. -/
theorem Seg.congr {e : Option α} : ∀ {l : List α} {s : Option α},
    (∀ a ∈ l, next' a = next a) → Seg next s l e → Seg next' s l e
  | [], _, _, hs => hs
  | a :: l, s, h, ⟨hs, hl⟩ => by
    refine ⟨hs, ?_⟩
    rw [h a (by simp)]
    exact Seg.congr (fun b hb => h b (by simp [hb])) hl

theorem Chain.congr {s : Option α} {l : List α} (h : ∀ a ∈ l, next' a = next a)
    (hc : Chain next s l) : Chain next' s l := Seg.congr h hc

theorem Chain.head_eq {s : Option α} {l : List α} (h : Chain next s l) : s = l.head? := by
  cases l with
  | nil => exact h
  | cons a l => exact h.1

theorem Chain.start_eq_none_iff {s : Option α} {l : List α} (h : Chain next s l) :
    s = none ↔ l = [] := by
  rw [h.head_eq, List.head?_eq_none_iff]

/-- The nodes are determined by the first one. -/
theorem Chain.unique : ∀ {l l' : List α} {s : Option α},
    Chain next s l → Chain next s l' → l = l'
  | [], [], _, _, _ => rfl
  | [], _ :: _, _, h, h' => by rw [chain_nil.mp h] at h'; exact absurd h'.1 (by simp)
  | _ :: _, [], _, h, h' => by rw [chain_nil.mp h'] at h; exact absurd h.1 (by simp)
  | a :: l, b :: l', _, ⟨hs, hl⟩, ⟨hs', hl'⟩ => by
    obtain rfl : a = b := by rw [hs] at hs'; exact Option.some.inj hs'
    rw [Chain.unique hl hl']

/-- A chain is acyclic: no node occurs twice. -/
theorem Chain.nodup : ∀ {l : List α} {s : Option α}, Chain next s l → l.Nodup
  | [], _, _ => List.nodup_nil
  | a :: l, s, ⟨_, hl⟩ => by
    refine List.nodup_cons.mpr ⟨fun ha => ?_, Chain.nodup hl⟩
    -- after a second visit of `a` the chain would have to be as long as after the first
    obtain ⟨p, q, rfl⟩ := List.append_of_mem ha
    have hq := (chain_append_cons.mp hl).2
    have := congrArg List.length (Chain.unique hl hq)
    simp at this
    omega

/-- A node that is its own successor is on no chain. -/
theorem not_chain_of_self {a : α} (h : next a = some a) (l : List α) :
    ¬ Chain next (some a) l := by
  intro hc
  induction l with
  | nil => exact absurd (chain_nil.mp hc) (by simp)
  | cons b l ih =>
    obtain ⟨hb, hl⟩ := hc
    obtain rfl := Option.some.inj hb
    rw [h] at hl
    exact ih hl

/-- Unlinking the node after `p`. -/
theorem Chain.remove_after {s : Option α} {l r : List α} {p a : α}
    (hc : Chain next s (l ++ p :: a :: r)) (hp : next' p = next a)
    (hother : ∀ b, b ≠ p → b ≠ a → next' b = next b) : Chain next' s (l ++ p :: r) := by
  have hnd := hc.nodup
  obtain ⟨h1, -, h2⟩ := chain_append_cons.mp hc
  have hne : ∀ b, (b ∈ l ∨ b ∈ r) → next' b = next b := by
    intro b hb
    have hnd' := List.nodup_append.mp hnd
    refine hother b ?_ ?_
    · rintro rfl
      rcases hb with hb | hb
      · exact hnd'.2.2 b hb b (by simp) rfl
      · have := hnd'.2.1
        simp [hb] at this
    · rintro rfl
      rcases hb with hb | hb
      · exact hnd'.2.2 b hb b (by simp) rfl
      · have := hnd'.2.1
        simp [hb] at this
  refine chain_append_cons.mpr ⟨Seg.congr (fun b hb => hne b (Or.inl hb)) h1, ?_⟩
  rw [hp]
  exact Chain.congr (fun b hb => hne b (Or.inr hb)) h2

/-- Unlinking the first node. -/
theorem Chain.remove_head {s : Option α} {r : List α} {a : α} (hc : Chain next s (a :: r))
    (hother : ∀ b, b ≠ a → next' b = next b) : Chain next' (next a) r := by
  have hnd := List.nodup_cons.mp hc.nodup
  refine Chain.congr (fun b hb => hother b ?_) hc.2
  rintro rfl
  exact hnd.1 hb

/-- Linking a node in after the last one. -/
theorem Chain.push_back {s : Option α} {l : List α} {z x : α} (hc : Chain next s (l ++ [z]))
    (hx : x ∉ l ++ [z]) (hz : next' z = some x) (hx' : next' x = none)
    (hother : ∀ b, b ≠ z → b ≠ x → next' b = next b) : Chain next' s (l ++ [z, x]) := by
  have hnd := List.nodup_append.mp hc.nodup
  obtain ⟨h1, h2⟩ := chain_append_cons.mp hc
  refine chain_append_cons.mpr ⟨Seg.congr (fun b hb => hother b ?_ ?_) h1, ?_⟩
  · rintro rfl
    exact hnd.2.2 b hb b (by simp) rfl
  · rintro rfl
    exact hx (by simp [hb])
  · rw [hz]
    exact ⟨rfl, hx'⟩

/-- Linking a first node in. -/
theorem Chain.push_front {s : Option α} {l : List α} {x : α} (hc : Chain next s l)
    (hx : x ∉ l) (hx' : next' x = s) (hother : ∀ b, b ≠ x → next' b = next b) :
    Chain next' (some x) (x :: l) := by
  refine ⟨rfl, ?_⟩
  rw [hx']
  refine Chain.congr (fun b hb => hother b ?_) hc
  rintro rfl
  exact hx hb

/-- Linking a node in after `p`. -/
theorem Chain.insert_after {s : Option α} {l r : List α} {p x : α}
    (hc : Chain next s (l ++ p :: r)) (hx : x ∉ l ++ p :: r) (hp : next' p = some x)
    (hx' : next' x = next p) (hother : ∀ b, b ≠ p → b ≠ x → next' b = next b) :
    Chain next' s (l ++ p :: x :: r) := by
  have hnd := List.nodup_append.mp hc.nodup
  obtain ⟨h1, h2⟩ := chain_append_cons.mp hc
  refine chain_append_cons.mpr ⟨Seg.congr (fun b hb => hother b ?_ ?_) h1, ?_⟩
  · rintro rfl
    exact hnd.2.2 b hb b (by simp) rfl
  · rintro rfl
    exact hx (by simp [hb])
  · rw [hp]
    refine ⟨rfl, ?_⟩
    rw [hx']
    refine Chain.congr (fun b hb => hother b ?_ ?_) h2
    · rintro rfl
      exact (List.nodup_cons.mp hnd.2.1).1 hb
    · rintro rfl
      exact hx (by simp [hb])

end Nolrem.Lib
