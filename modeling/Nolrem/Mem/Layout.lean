import Mathlib.Data.List.Nodup
import Nolrem.Lib.Tiling
import Nolrem.Mem.HeapEx

/-!
# How chunks are laid out

A chunk is cut into items: a fencepost at each end and blocks between them. A block that is
off the lists in the middle of a call is `held`. The layout speaks about addresses only; what
the words of memory say is in `Rep`.
-/

namespace Nolrem.Mem

open Nolrem.Lib

inductive Kind where
  | fence
  | used
  | free
  | held
deriving DecidableEq, Repr

/-- A fencepost or a block. -/
structure Item where
  addr : Nat
  size : Nat
  kind : Kind
deriving DecidableEq, Repr

def Item.span (b : Item) : Nat × Nat := (b.addr, b.addr + b.size)

def Chunk.span (c : Chunk) : Nat × Nat := (c.base, c.base + c.len)

/-- The items cut each chunk up, and no two free blocks are next to each other. -/
structure Layout (chunks : List Chunk) (items : List Item) : Prop where
  /-- Each address of a chunk is in one item, and no other address is in any. -/
  tiled : ∀ x, cover Item.span items x = cover Chunk.span chunks x
  once : ∀ x, cover Chunk.span chunks x ≤ 1
  chunk : ∀ c ∈ chunks, 0 < c.base ∧ c.base + c.len ≤ 4294967296 ∧ 32 ≤ c.len
  left : ∀ c ∈ chunks, ∃ b ∈ items, b.kind = .fence ∧ b.addr = c.base
  right : ∀ c ∈ chunks, ∃ b ∈ items, b.kind = .fence ∧ b.addr + 8 = c.base + c.len
  fence : ∀ b ∈ items, b.kind = .fence → b.size = 8 ∧
    ∃ c ∈ chunks, b.addr = c.base ∨ b.addr + 8 = c.base + c.len
  size : ∀ b ∈ items, b.size % 8 = 0 ∧ (b.kind ≠ .fence → 16 ≤ b.size)
  apart : ∀ b ∈ items, ∀ d ∈ items, b.kind = .free → d.kind = .free → d.addr ≠ b.addr + b.size

namespace Layout

variable {chunks : List Chunk} {items : List Item} {b d : Item}

theorem size_pos (h : Layout chunks items) (hb : b ∈ items) : 8 ≤ b.size := by
  by_cases hk : b.kind = .fence
  · rw [(h.fence b hb hk).1]
  · have := (h.size b hb).2 hk
    omega

/-- Two items that share an address are the same. -/
theorem eq_of_inside (h : Layout chunks items) (hb : b ∈ items) (hd : d ∈ items) {x : Nat}
    (hbx : Inside Item.span b x) (hdx : Inside Item.span d x) : b = d := by
  refine eq_of_cover_le_one Item.span ?_ hb hd hbx hdx
  rw [h.tiled]
  exact h.once x

theorem eq_of_addr (h : Layout chunks items) (hb : b ∈ items) (hd : d ∈ items)
    (ha : b.addr = d.addr) : b = d := by
  have h1 := h.size_pos hb
  have h2 := h.size_pos hd
  refine h.eq_of_inside hb hd (x := b.addr) ⟨Nat.le_refl _, ?_⟩ ⟨?_, ?_⟩ <;>
    simp only [Item.span] <;> omega

theorem eq_of_end (h : Layout chunks items) (hb : b ∈ items) (hd : d ∈ items)
    (he : b.addr + b.size = d.addr + d.size) : b = d := by
  have h1 := h.size_pos hb
  have h2 := h.size_pos hd
  refine h.eq_of_inside hb hd (x := b.addr + b.size - 1) ⟨?_, ?_⟩ ⟨?_, ?_⟩ <;>
    simp only [Item.span] <;> omega

theorem disjoint (h : Layout chunks items) (hb : b ∈ items) (hd : d ∈ items) (hne : b ≠ d) :
    b.addr + b.size ≤ d.addr ∨ d.addr + d.size ≤ b.addr := by
  have h1 := h.size_pos hb
  have h2 := h.size_pos hd
  by_contra hover
  push Not at hover
  refine hne (h.eq_of_inside hb hd (x := max b.addr d.addr) ?_ ?_) <;>
    simp only [Inside, Item.span] <;> omega

theorem nodup (h : Layout chunks items) : items.Nodup := by
  rw [List.nodup_iff_count_le_one]
  intro b
  by_cases hb : b ∈ items
  · have h1 := h.size_pos hb
    have hle : cover Item.span items b.addr ≤ 1 := by
      rw [h.tiled]
      exact h.once _
    refine le_trans ?_ hle
    unfold cover
    rw [List.count]
    refine List.countP_mono_left fun d _ hd => ?_
    obtain rfl : d = b := by simpa using hd
    exact decide_eq_true ⟨Nat.le_refl _, by simp only [Item.span]; omega⟩
  · rw [List.count_eq_zero_of_not_mem hb]
    omega

/-- An item lies in one chunk, and a block lies between its fenceposts. -/
theorem in_chunk (h : Layout chunks items) (hb : b ∈ items) : ∃ c ∈ chunks,
    c.base ≤ b.addr ∧ b.addr + b.size ≤ c.base + c.len ∧
      (b.kind ≠ .fence → c.base + 8 ≤ b.addr ∧ b.addr + b.size + 8 ≤ c.base + c.len) := by
  have hpos := h.size_pos hb
  by_cases hk : b.kind = .fence
  · obtain ⟨h8, c, hc, hor⟩ := h.fence b hb hk
    obtain ⟨-, -, hlen⟩ := h.chunk c hc
    exact ⟨c, hc, by omega, by omega, fun hne => absurd hk hne⟩
  · have hcov : 0 < cover Chunk.span chunks b.addr := by
      rw [← h.tiled]
      exact cover_pos_of_mem Item.span hb ⟨Nat.le_refl _, by simp only [Item.span]; omega⟩
    obtain ⟨c, hc, hin⟩ := (cover_pos_iff Chunk.span).mp hcov
    simp only [Inside, Chunk.span] at hin
    obtain ⟨f, hf, hfk, hfa⟩ := h.left c hc
    obtain ⟨g, hg, hgk, hga⟩ := h.right c hc
    have hf8 := (h.fence f hf hfk).1
    have hg8 := (h.fence g hg hgk).1
    have h1 := h.disjoint hb hf fun heq => hk (heq ▸ hfk)
    have h2 := h.disjoint hb hg fun heq => hk (heq ▸ hgk)
    exact ⟨c, hc, by omega, by omega, fun _ => ⟨by omega, by omega⟩⟩

theorem bounds (h : Layout chunks items) (hb : b ∈ items) :
    0 < b.addr ∧ b.addr + b.size ≤ 4294967296 := by
  obtain ⟨c, hc, h1, h2, -⟩ := h.in_chunk hb
  obtain ⟨h3, h4, -⟩ := h.chunk c hc
  omega

/-- After a block comes another item. -/
theorem next (h : Layout chunks items) (hb : b ∈ items) (hk : b.kind ≠ .fence) :
    ∃ d ∈ items, d.addr = b.addr + b.size := by
  obtain ⟨c, hc, h1, h2, h3⟩ := h.in_chunk hb
  have hcov : 0 < cover Item.span items (b.addr + b.size) := by
    rw [h.tiled]
    refine cover_pos_of_mem Chunk.span hc ?_
    have := h3 hk
    simp only [Inside, Chunk.span]
    omega
  obtain ⟨d, hd, hin⟩ := (cover_pos_iff Item.span).mp hcov
  simp only [Inside, Item.span] at hin
  refine ⟨d, hd, ?_⟩
  have hne : b ≠ d := by
    rintro rfl
    omega
  have := h.disjoint hb hd hne
  omega

/-- Before a block comes another item. -/
theorem prev (h : Layout chunks items) (hb : b ∈ items) (hk : b.kind ≠ .fence) :
    ∃ d ∈ items, d.addr + d.size = b.addr := by
  obtain ⟨c, hc, h1, h2, h3⟩ := h.in_chunk hb
  have h8 := h3 hk
  have hpos := h.size_pos hb
  have hcov : 0 < cover Item.span items (b.addr - 1) := by
    rw [h.tiled]
    refine cover_pos_of_mem Chunk.span hc ?_
    simp only [Inside, Chunk.span]
    omega
  obtain ⟨d, hd, hin⟩ := (cover_pos_iff Item.span).mp hcov
  simp only [Inside, Item.span] at hin
  refine ⟨d, hd, ?_⟩
  have hne : b ≠ d := by
    rintro rfl
    omega
  have := h.disjoint hb hd hne
  omega

/-- The two links of blocks are never at one address. -/
theorem link_ne (h : Layout chunks items) (hb : b ∈ items) (hd : d ∈ items)
    (hbk : b.kind ≠ .fence) (hdk : d.kind ≠ .fence) : b.addr + 4 ≠ d.addr + 8 := by
  have h1 := (h.size b hb).2 hbk
  have h2 := (h.size d hd).2 hdk
  by_cases hne : b = d
  · subst hne
    omega
  · have := h.disjoint hb hd hne
    omega

/-- No tag is at the address of a link. -/
theorem tag_ne (h : Layout chunks items) (hb : b ∈ items) (hd : d ∈ items)
    (hdk : d.kind ≠ .fence) : (b.addr ≠ d.addr + 4 ∧ b.addr ≠ d.addr + 8) ∧
      b.addr + b.size - 4 ≠ d.addr + 4 ∧ b.addr + b.size - 4 ≠ d.addr + 8 := by
  have h1 := h.size_pos hb
  have h2 := (h.size d hd).2 hdk
  by_cases hne : b = d
  · subst hne
    omega
  · have := h.disjoint hb hd hne
    omega

/-- Some blocks are cut up in another way. -/
theorem replace {old new rest : List Item} (h : Layout chunks items)
    (hp : items.Perm (old ++ rest))
    (hcover : ∀ x, cover Item.span new x = cover Item.span old x)
    (hold : ∀ b ∈ old, b.kind ≠ .fence)
    (hnew : ∀ b ∈ new, b.kind ≠ .fence ∧ 16 ≤ b.size ∧ b.size % 8 = 0)
    (hapart : ∀ b ∈ new, b.kind = .free → new = [b] ∧ ∀ d ∈ rest, d.kind = .free →
      d.addr ≠ b.addr + b.size ∧ b.addr ≠ d.addr + d.size) : Layout chunks (new ++ rest) := by
  have hrest : ∀ b ∈ rest, b ∈ items := fun b hb => hp.mem_iff.mpr (by simp [hb])
  have hkeep : ∀ b ∈ items, b.kind = .fence → b ∈ rest := by
    intro b hb hk
    rcases List.mem_append.mp (hp.mem_iff.mp hb) with hb | hb
    · exact absurd hk (hold b hb)
    · exact hb
  refine ⟨fun x => ?_, h.once, h.chunk, fun c hc => ?_, fun c hc => ?_, fun b hb hk => ?_,
    fun b hb => ?_, fun b hb d hd hbk hdk => ?_⟩
  · rw [cover_append, hcover, ← cover_append, ← cover_perm Item.span hp]
    exact h.tiled x
  · obtain ⟨b, hb, hk, ha⟩ := h.left c hc
    exact ⟨b, by simp [hkeep b hb hk], hk, ha⟩
  · obtain ⟨b, hb, hk, ha⟩ := h.right c hc
    exact ⟨b, by simp [hkeep b hb hk], hk, ha⟩
  · rcases List.mem_append.mp hb with hb | hb
    · exact absurd hk (hnew b hb).1
    · exact h.fence b (hrest b hb) hk
  · rcases List.mem_append.mp hb with hb | hb
    · exact ⟨(hnew b hb).2.2, fun _ => (hnew b hb).2.1⟩
    · exact h.size b (hrest b hb)
  · rcases List.mem_append.mp hb with hb | hb <;> rcases List.mem_append.mp hd with hd | hd
    · obtain ⟨heq, -⟩ := hapart b hb hbk
      rw [heq, List.mem_singleton] at hd
      subst hd
      have := (hnew d hb).2.1
      omega
    · exact ((hapart b hb hbk).2 d hd hdk).1
    · exact ((hapart d hd hdk).2 b hb hbk).2
    · exact h.apart b (hrest b hb) d (hrest d hd) hbk hdk

end Layout

/-! ## The blocks in use -/

def usedOf (items : List Item) : List Item := items.filter fun b => b.kind = .used

/-- The bytes of the blocks in use. -/
def usedSize (items : List Item) : Nat := ((usedOf items).map Item.size).sum

theorem mem_usedOf {items : List Item} {b : Item} :
    b ∈ usedOf items ↔ b ∈ items ∧ b.kind = .used := by
  simp [usedOf]

theorem usedOf_perm {items items' : List Item} (h : items.Perm items') :
    (usedOf items).Perm (usedOf items') := h.filter _

theorem usedSize_perm {items items' : List Item} (h : (usedOf items).Perm (usedOf items')) :
    usedSize items = usedSize items' := (h.map _).sum_nat

theorem usedOf_append (l l' : List Item) : usedOf (l ++ l') = usedOf l ++ usedOf l' :=
  List.filter_append ..

theorem usedOf_eq_nil {l : List Item} (h : ∀ b ∈ l, b.kind ≠ .used) : usedOf l = [] := by
  unfold usedOf
  rw [List.filter_eq_nil_iff]
  simpa using h

/-- `x` is in a block that is not in use. -/
def Loose (items : List Item) (x : Nat) : Prop :=
  ∃ b ∈ items, (b.kind = .free ∨ b.kind = .held) ∧ Inside Item.span b x

end Nolrem.Mem
