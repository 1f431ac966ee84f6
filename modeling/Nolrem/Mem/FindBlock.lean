import Nolrem.Mem.Alloc

/-!
# Finding a block

New memory from the system is laid out as a chunk, and `FindBlock` chooses between the free
blocks there are and new memory.
-/

namespace Nolrem.Mem

open Nolrem.Lib

variable {h h' : Heap} {chunks : List Chunk} {items items' : List Item} {b d : Item}

/-! ## New memory -/

/-- `c` is memory that `get_memory` may return when `needed` bytes are asked for. -/
structure Fresh (chunks : List Chunk) (needed : Nat) (c : Chunk) : Prop where
  start : 0 < c.base
  stop : c.base + c.len ≤ 4294967296
  size : needed ≤ c.len
  multiple : c.len % 8 = 0
  apart : ∀ d ∈ chunks, c.base + c.len ≤ d.base ∨ d.base + d.len ≤ c.base

/-- The items of a chunk that has just been laid out. -/
def newItems (c : Chunk) : List Item :=
  [⟨c.base, 8, .fence⟩, ⟨c.base + c.len - 8, 8, .fence⟩, ⟨c.base + 8, c.len - 16, .held⟩]

section LayOut

variable {c : Chunk}

/-- Where the block and the right fencepost of a chunk are. -/
theorem layOut_places (hlen : 32 ≤ c.len) (h8 : c.len % 8 = 0)
    (h0 : 0 < c.base) (hend : c.base + c.len ≤ 4294967296) :
    plusBytes c.base minReqSize = c.base + 8 ∧ wsub c.len (2 * minReqSize) = c.len - 16 ∧
      plusBytes c.base (wsub c.len minReqSize) = c.base + (c.len - 8) := by
  unfold minReqSize
  refine ⟨plusBytes_eq (by omega) (by omega), wsub_eq (by omega) (by omega), ?_⟩
  rw [wsub_eq (by omega) (by omega), plusBytes_eq (by omega) (by omega)]

theorem layTags_mem (hlen : 32 ≤ c.len) (h8 : c.len % 8 = 0) (h0 : 0 < c.base)
    (hend : c.base + c.len ≤ 4294967296) (x : Nat) : (layTags h c).mem x =
      if x = c.base + c.len - 4 then 8
      else if x = c.base + (c.len - 8) then withSize (h.mem x) 8
      else if x = c.base + c.len - 12 then c.len - 16
      else if x = c.base + 8 then withSize (h.mem x) (c.len - 16)
      else if x = c.base + 4 then 8
      else if x = c.base then withSize (h.mem x) 8 else h.mem x := by
  obtain ⟨hblock, hsize, hright⟩ := layOut_places hlen h8 h0 hend
  unfold layTags
  simp only [hblock, hsize, hright]
  unfold minReqSize
  rw [setSizeTags_mem (by decide) (by decide) (by omega),
    show c.base + (c.len - 8) + 8 - 4 = c.base + c.len - 4 by omega]
  simp only [setSizeTags_mem (h := setSizeTags h c.base 8) (a := c.base + 8) (s := c.len - 16)
    (by omega) (by omega) (by omega), setSizeTags_mem (h := h) (a := c.base) (s := 8) (by decide)
    (by decide) (by omega)]
  have e1 : c.base + 8 + (c.len - 16) - 4 = c.base + c.len - 12 := by omega
  have e2 : c.base + 8 - 4 = c.base + 4 := by omega
  rw [e1, e2]
  by_cases hx : x = c.base + c.len - 4
  · rw [if_pos hx, if_pos hx]
  by_cases hx1 : x = c.base + (c.len - 8)
  · subst hx1
    rw [if_neg hx, if_pos rfl, if_neg hx, if_pos rfl, if_neg (by omega), if_neg (by omega),
      if_neg (by omega), if_neg (by omega)]
  rw [if_neg hx, if_neg hx1, if_neg hx, if_neg hx1]
  by_cases hx2 : x = c.base + c.len - 12
  · rw [if_pos hx2, if_pos hx2]
  by_cases hx3 : x = c.base + 8
  · subst hx3
    rw [if_neg hx2, if_pos rfl, if_neg hx2, if_pos rfl, if_neg (by omega), if_neg (by omega)]
  rw [if_neg hx2, if_neg hx3, if_neg hx2, if_neg hx3]
  by_cases hx4 : x = c.base + 4
  · rw [if_pos hx4, if_pos hx4]
  rw [if_neg hx4, if_neg hx4]
  by_cases hx5 : x = c.base
  · rw [if_pos hx5, if_pos hx5, hx5]
  · rw [if_neg hx5, if_neg hx5]

theorem layOut_mem (hlen : 32 ≤ c.len) (h8 : c.len % 8 = 0) (h0 : 0 < c.base)
    (hend : c.base + c.len ≤ 4294967296) (x : Nat) : (layOut h c).mem x =
      if x = c.base ∨ x = c.base + (c.len - 8) then (layTags h c).mem x ||| 2 ||| 1
      else if x = c.base + 8 then (layTags h c).mem x &&& 4294967294
      else if x = c.base + 12 ∨ x = c.base + 16 then 0 else (layTags h c).mem x := by
  obtain ⟨hblock, hsize, hright⟩ := layOut_places hlen h8 h0 hend
  unfold layOut
  simp only [hblock, hright, markFree_mem, markAllocated_mem, markFencepost_mem, Heap.setNext,
    Heap.setPrev, write_mem]
  have e1 : c.base ≠ c.base + (c.len - 8) := by omega
  have e2 : c.base + 8 ≠ c.base + (c.len - 8) := by omega
  have e3 : c.base + 8 ≠ c.base := by omega
  have e4 : c.base ≠ c.base + 8 + 4 := by omega
  have e5 : c.base ≠ c.base + 8 + 8 := by omega
  have e6 : c.base + (c.len - 8) ≠ c.base + 8 + 4 := by omega
  have e7 : c.base + (c.len - 8) ≠ c.base + 8 + 8 := by omega
  have e8 : c.base + 8 ≠ c.base + 8 + 4 := by omega
  have e9 : c.base + 8 ≠ c.base + 8 + 8 := by omega
  simp only [e1, e2, e3, e4, e5, e6, e7, e8, e9, e1.symm, if_true, if_false]
  by_cases hx : x = c.base + 8
  · subst hx
    rw [if_pos rfl, if_neg (by omega), if_pos rfl]
  rw [if_neg hx]
  by_cases hx1 : x = c.base + (c.len - 8)
  · subst hx1
    rw [if_pos rfl, if_pos (Or.inr rfl)]
  rw [if_neg hx1]
  by_cases hx2 : x = c.base
  · subst hx2
    rw [if_pos rfl, if_pos (Or.inl rfl)]
  have e10 : c.base + 8 + 4 = c.base + 12 := rfl
  have e11 : c.base + 8 + 8 = c.base + 16 := rfl
  simp only [hx, hx1, hx2, false_or, if_false, e10, e11]
  by_cases hx3 : x = c.base + 12
  · rw [if_pos hx3, if_pos (Or.inl hx3)]
  rw [if_neg hx3]
  by_cases hx4 : x = c.base + 16
  · rw [if_pos hx4, if_pos (Or.inr hx4)]
  · rw [if_neg hx4, if_neg fun hor => hor.elim hx3 hx4]

end LayOut

section NewChunk

variable {c : Chunk} {needed : Nat}

theorem cover_newItems (hlen : 32 ≤ c.len) (x : Nat) :
    cover Item.span (newItems c) x = hit c.base (c.base + c.len) x := by
  have h1 := hit_split (a := c.base) (b := c.base + 8) (c := c.base + c.len) (by omega)
    (by omega) x
  have h2 := hit_split (a := c.base + 8) (b := c.base + c.len - 8) (c := c.base + c.len)
    (by omega) (by omega) x
  unfold newItems
  simp only [cover_cons, cover_nil, Item.span]
  rw [show c.base + c.len - 8 + 8 = c.base + c.len by omega,
    show c.base + 8 + (c.len - 16) = c.base + c.len - 8 by omega]
  omega

/-- No address of a new chunk is in an item. -/
theorem Fresh.not_inside (hl : Layout chunks items) (hf : Fresh chunks needed c)
    (hb : b ∈ items) {x : Nat} (hx : Inside Item.span b x) :
    x < c.base ∨ c.base + c.len ≤ x := by
  obtain ⟨e, he, h1, h2, -⟩ := hl.in_chunk hb
  have := hf.apart e he
  rw [inside_iff] at hx
  omega

theorem layout_newItems (hl : Layout chunks items) (hf : Fresh chunks needed c)
    (hlen : 32 ≤ c.len) : Layout (c :: chunks) (newItems c ++ items) := by
  have h8 := hf.multiple
  refine ⟨fun x => ?_, fun x => ?_, fun e he => ?_, fun e he => ?_, fun e he => ?_,
    fun b hb hk => ?_, fun b hb => ?_, fun b hb d hd hbk hdk => ?_⟩
  · rw [cover_append, cover_cons, cover_newItems hlen, hl.tiled]
    rfl
  · rw [cover_cons]
    by_cases hx : Inside Chunk.span c x
    · have h0 : cover Chunk.span chunks x = 0 := by
        rw [cover_eq_zero_iff]
        intro d hd hdx
        have := hf.apart d hd
        simp only [Inside, Chunk.span] at hx hdx
        omega
      have := hit_le_one (Chunk.span c).1 (Chunk.span c).2 x
      omega
    · have h0 : hit (Chunk.span c).1 (Chunk.span c).2 x = 0 := if_neg hx
      have := hl.once x
      omega
  · rcases List.mem_cons.mp he with rfl | he
    · exact ⟨hf.start, hf.stop, hlen⟩
    · exact hl.chunk e he
  · rcases List.mem_cons.mp he with rfl | he
    · exact ⟨⟨e.base, 8, .fence⟩, by simp [newItems], rfl, rfl⟩
    · obtain ⟨b, hb, hk, ha⟩ := hl.left e he
      exact ⟨b, List.mem_append_right _ hb, hk, ha⟩
  · rcases List.mem_cons.mp he with rfl | he
    · exact ⟨⟨e.base + e.len - 8, 8, .fence⟩, by simp [newItems], rfl, by simp only; omega⟩
    · obtain ⟨b, hb, hk, ha⟩ := hl.right e he
      exact ⟨b, List.mem_append_right _ hb, hk, ha⟩
  · rcases List.mem_append.mp hb with hb | hb
    · simp only [newItems, List.mem_cons, List.not_mem_nil, or_false] at hb
      rcases hb with rfl | rfl | rfl
      · exact ⟨rfl, c, List.mem_cons_self, Or.inl rfl⟩
      · exact ⟨rfl, c, List.mem_cons_self, Or.inr (by simp only; omega)⟩
      · simp at hk
    · obtain ⟨h1, e, he, h2⟩ := hl.fence b hb hk
      exact ⟨h1, e, List.mem_cons_of_mem _ he, h2⟩
  · rcases List.mem_append.mp hb with hb | hb
    · simp only [newItems, List.mem_cons, List.not_mem_nil, or_false] at hb
      rcases hb with rfl | rfl | rfl
      · simp
      · simp
      · exact ⟨by simp only; omega, fun _ => by simp only; omega⟩
    · exact hl.size b hb
  · have hnew : ∀ d ∈ newItems c, d.kind ≠ .free := by simp [newItems]
    rcases List.mem_append.mp hb with hb | hb
    · exact absurd hbk (hnew b hb)
    · rcases List.mem_append.mp hd with hd | hd
      · exact absurd hdk (hnew d hd)
      · exact hl.apart b hb d hd hbk hdk

/-- Nothing outside the new chunk is written. -/
theorem layOut_frame (hlen : 32 ≤ c.len) (h8 : c.len % 8 = 0) (h0 : 0 < c.base)
    (hend : c.base + c.len ≤ 4294967296) {x : Nat} (hx : x < c.base ∨ c.base + c.len ≤ x) :
    (layOut h c).mem x = h.mem x := by
  rw [layOut_mem hlen h8 h0 hend, if_neg (by omega), if_neg (by omega), if_neg (by omega),
    layTags_mem hlen h8 h0 hend, if_neg (by omega), if_neg (by omega), if_neg (by omega),
    if_neg (by omega), if_neg (by omega), if_neg (by omega)]

/-- The header words of a new chunk. -/
theorem layOut_headers (hlen : 32 ≤ c.len) (h8 : c.len % 8 = 0) (h0 : 0 < c.base)
    (hend : c.base + c.len ≤ 4294967296) :
    (layOut h c).mem c.base = withSize (h.mem c.base) 8 ||| 2 ||| 1 ∧
    (layOut h c).mem (c.base + c.len - 8) = withSize (h.mem (c.base + c.len - 8)) 8 ||| 2 ||| 1 ∧
    (layOut h c).mem (c.base + 8) =
      withSize (h.mem (c.base + 8)) (c.len - 16) &&& 4294967294 := by
  refine ⟨?_, ?_, ?_⟩
  · rw [layOut_mem hlen h8 h0 hend, if_pos (Or.inl rfl), layTags_mem hlen h8 h0 hend,
      if_neg (by omega), if_neg (by omega), if_neg (by omega), if_neg (by omega),
      if_neg (by omega), if_pos rfl]
  · rw [layOut_mem hlen h8 h0 hend, if_pos (Or.inr (by omega)), layTags_mem hlen h8 h0 hend,
      if_neg (by omega), if_pos (by omega)]
  · rw [layOut_mem hlen h8 h0 hend, if_neg (by omega), if_pos rfl, layTags_mem hlen h8 h0 hend,
      if_neg (by omega), if_neg (by omega), if_neg (by omega), if_pos rfl]

/-- The trailing tags of a new chunk. -/
theorem layOut_trailers (hlen : 32 ≤ c.len) (h8 : c.len % 8 = 0) (h0 : 0 < c.base)
    (hend : c.base + c.len ≤ 4294967296) :
    (layOut h c).mem (c.base + 4) = 8 ∧ (layOut h c).mem (c.base + c.len - 4) = 8 ∧
      (layOut h c).mem (c.base + c.len - 12) = c.len - 16 := by
  refine ⟨?_, ?_, ?_⟩
  · rw [layOut_mem hlen h8 h0 hend, if_neg (by omega), if_neg (by omega), if_neg (by omega),
      layTags_mem hlen h8 h0 hend, if_neg (by omega), if_neg (by omega), if_neg (by omega),
      if_neg (by omega), if_pos rfl]
  · rw [layOut_mem hlen h8 h0 hend, if_neg (by omega), if_neg (by omega), if_neg (by omega),
      layTags_mem hlen h8 h0 hend, if_pos rfl]
  · rw [layOut_mem hlen h8 h0 hend, if_neg (by omega), if_neg (by omega), if_neg (by omega),
      layTags_mem hlen h8 h0 hend, if_neg (by omega), if_neg (by omega), if_pos rfl]

theorem layOut_words (hr : Rep h items) (hlen : 32 ≤ c.len) (h8 : c.len % 8 = 0)
    (h0 : 0 < c.base) (hend : c.base + c.len ≤ 4294967296) (x : Nat) :
    (layOut h c).mem x < 4294967296 := by
  have hw := hr.words x
  have htags : (layTags h c).mem x < 4294967296 := by
    rw [layTags_mem hlen h8 h0 hend]
    have h1 := withSize_lt (w := h.mem x) (s := 8) (by decide)
    have h2 := withSize_lt (w := h.mem x) (s := c.len - 16) (by omega)
    split_ifs <;> omega
  rw [layOut_mem hlen h8 h0 hend]
  split
  · exact Nat.or_lt_two_pow (n := 32) (Nat.or_lt_two_pow (n := 32) htags (by decide)) (by decide)
  · split
    · exact lt_of_le_of_lt Nat.and_le_left htags
    · split
      · decide
      · exact htags

theorem tagged_newItems (hlen : 32 ≤ c.len) (h8 : c.len % 8 = 0) (h0 : 0 < c.base)
    (hend : c.base + c.len ≤ 4294967296) : ∀ b ∈ newItems c, Tagged (layOut h c) b := by
  obtain ⟨hleft, hright, hblock⟩ := layOut_headers (h := h) hlen h8 h0 hend
  obtain ⟨tleft, tright, tblock⟩ := layOut_trailers (h := h) hlen h8 h0 hend
  have hfence : ∀ w, sizeBits (withSize w 8 ||| 2 ||| 1) = 8 ∧
      allocatedBit (withSize w 8 ||| 2 ||| 1) = true := by
    intro w
    rw [sizeBits_or (by decide), sizeBits_or (by decide), sizeBits_withSize (by decide) (by decide)]
    exact ⟨rfl, (flags_or_one _).1⟩
  intro b hb
  simp only [newItems, List.mem_cons, List.not_mem_nil, or_false] at hb
  rcases hb with rfl | rfl | rfl
  · refine ⟨?_, tleft, fun _ => ?_⟩
    · unfold getSize
      rw [hleft, (hfence _).1]
    · unfold isAllocated
      rw [hleft, (hfence _).2]
      rfl
  · refine ⟨?_, ?_, fun _ => ?_⟩
    · unfold getSize
      rw [hright, (hfence _).1]
    · rw [show c.base + c.len - 8 + 8 - 4 = c.base + c.len - 4 by omega]
      exact tright
    · unfold isAllocated
      rw [hright, (hfence _).2]
      rfl
  · refine ⟨?_, ?_, fun hne => absurd rfl hne⟩
    · unfold getSize
      rw [hblock, sizeBits_and_freeMask, sizeBits_withSize (by omega) (by omega)]
    · simp only
      rw [show c.base + 8 + (c.len - 16) - 4 = c.base + c.len - 12 by omega]
      exact tblock

/-- `RequestBlock` makes a chunk of new memory. -/
theorem layOut_spec (hl : Layout chunks items) (hr : Rep h items) (hf : Fresh chunks needed c)
    (hlen : 32 ≤ c.len) : Rep (layOut h c) (newItems c ++ items) ∧
      (FenceBits h items → fencepostBit (h.mem (c.base + 8)) = false →
        FenceBits (layOut h c) (newItems c ++ items)) := by
  have h8 := hf.multiple
  have h0 := hf.start
  have hend := hf.stop
  have hframe : ∀ b ∈ items, ∀ x, Inside Item.span b x → (layOut h c).mem x = h.mem x :=
    fun b hb x hx => layOut_frame hlen h8 h0 hend (hf.not_inside hl hb hx)
  constructor
  · refine hr.retag hl (show items.Perm ([] ++ items) from List.Perm.refl _) (by simp) (fun b hb => ⟨?_, ?_⟩) hframe
      (layOut_words hr hlen h8 h0 hend) rfl rfl
    · simp only [newItems, List.mem_cons, List.not_mem_nil, or_false] at hb
      rcases hb with rfl | rfl | rfl <;> simp
    · exact tagged_newItems hlen h8 h0 hend b hb
  · intro hfe hclean
    obtain ⟨hleft, hright, hblock⟩ := layOut_headers (h := h) hlen h8 h0 hend
    refine hfe.replace (newItems c) (show items.Perm ([] ++ items) from List.Perm.refl _) (fun b hb => ?_) fun b hb => ?_
    · simp only [newItems, List.mem_cons, List.not_mem_nil, or_false] at hb
      unfold isFencepost
      rcases hb with rfl | rfl | rfl
      · rw [hleft, (flags_or_one _).2, fencepostBit_or_two]
        rfl
      · rw [hright, (flags_or_one _).2, fencepostBit_or_two]
        rfl
      · rw [hblock, (flags_and_freeMask _).2, fencepostBit_withSize (by omega), hclean]
        rfl
    · have := hl.size_pos hb
      exact hframe b hb _ (by rw [inside_iff]; omega)

end NewChunk

/-! ## Searching -/

/-- `request` bytes fit in the free block at `b`, which is on the list `i`. -/
def Fits (items : List Item) (request b i : Nat) : Prop :=
  ∃ d ∈ items, d.kind = .free ∧ d.addr = b ∧ i = getInsertionIndex (d.size - 8) ∧
    request + 8 ≤ d.size

/-- A list of blocks is no longer than the address space. -/
theorem Rep.length_le (hl : Layout chunks items) {l : List Nat} (hn : l.Nodup)
    (hmem : ∀ a ∈ l, ∃ b ∈ items, b.addr = a) : l.length ≤ 4294967296 := by
  have hsub : l ⊆ List.range 4294967296 := by
    intro a ha
    obtain ⟨b, hb, rfl⟩ := hmem a ha
    have h1 := hl.bounds hb
    have h2 := hl.size_pos hb
    rw [List.mem_range]
    omega
  have hle := (List.subperm_of_subset hn hsub).length_le
  rwa [List.length_range] at hle

theorem searchLast_spec (hl : Layout chunks items) (hr : Rep h items) (request : Nat) :
    ∀ {l : List Nat} {current : Nat} (fuel : Nat),
      Chain (fun b => ptr (h.next b)) (ptr current) l →
      l.length < fuel → (∀ a ∈ l, ∃ b ∈ items, b.kind = .free ∧ b.addr = a) →
      ∃ r, searchLast h request fuel current = .ok r ∧ ∀ a, r = some a →
        a ∈ l ∧ ∀ b ∈ items, b.addr = a → request + 8 ≤ b.size
  | [], current, fuel + 1, hc, _, _ => by
    have h0 : current = 0 := ptr_eq_none.mp (by simpa [Chain, Seg, eq_comm] using hc)
    exact ⟨none, by rw [searchLast, if_pos h0], by simp⟩
  | a :: l, current, fuel + 1, hc, hlen, hmem => by
    obtain ⟨hs, hrest⟩ : ptr current = some a ∧ Chain (fun b => ptr (h.next b)) (ptr (h.next a)) l :=
      hc
    obtain ⟨rfl, hne⟩ := ptr_eq_some.mp hs
    obtain ⟨b, hb, hk, hba⟩ := hmem current List.mem_cons_self
    have h1 := hl.bounds hb
    have h2 := hl.size_pos hb
    have hsize : wsub (getSize h current) metadataTotal = b.size - 8 := by
      rw [← hba, (hr.tagged b hb).header]
      exact wsub_eq h2 (by omega)
    rw [searchLast, if_neg hne, hsize]
    by_cases hfit : request ≤ b.size - 8
    · rw [if_pos hfit]
      refine ⟨some current, rfl, fun a ha => ?_⟩
      obtain rfl := Option.some.inj ha
      refine ⟨List.mem_cons_self, fun d hd hda => ?_⟩
      obtain rfl := hl.eq_of_addr hb hd (hba.trans hda.symm)
      omega
    · rw [if_neg hfit]
      obtain ⟨r, hr', hspec⟩ := searchLast_spec hl hr request fuel hrest
        (by simp only [List.length_cons] at hlen; omega)
        fun a ha => hmem a (List.mem_cons_of_mem _ ha)
      exact ⟨r, hr', fun a ha => ⟨List.mem_cons_of_mem _ (hspec a ha).1, (hspec a ha).2⟩⟩
  | _ :: _, _, 0, _, hlen, _ => absurd hlen (Nat.not_lt_zero _)
  | [], _, 0, _, hlen, _ => absurd hlen (Nat.not_lt_zero _)

theorem testBit_listMask {m j : Nat} (hm : m < 32) :
    ((4294967295 <<< m) % 4294967296).testBit j = (decide (j < 32) && decide (m ≤ j)) := by
  rw [show (4294967296 : Nat) = 2 ^ 32 by decide, Nat.testBit_mod_two_pow, Nat.testBit_shiftLeft,
    show (4294967295 : Nat) = 2 ^ 32 - 1 by decide, Nat.testBit_two_pow_sub_one]
  by_cases hj : j < 32
  · by_cases hmj : m ≤ j
    · simp [hj, hmj, show j - m < 32 by omega]
    · simp [hmj]
  · simp [hj]

theorem findFree_spec (hl : Layout chunks items) (hr : Rep h items) (request : Nat) {fuel : Nat}
    (hfuel : 4294967296 < fuel) : ∃ r, findFree fuel h request = .ok r ∧
      ∀ b i, r = some (b, i) → Fits items request b i := by
  set m := getSmallestListIndexThatFits request with hm
  set candidates := h.freeListBitmap &&& (4294967295 <<< m) % 4294967296 with hc
  have hmlt : m < 24 := getSmallestListIndexThatFits_lt request
  unfold findFree
  rw [← hm, ← hc]
  by_cases h0 : candidates = 0
  · rw [if_neg (by simpa using h0)]
    exact ⟨none, rfl, by simp⟩
  have hclt : candidates < 4294967296 :=
    lt_of_le_of_lt Nat.and_le_right (Nat.mod_lt _ (by decide))
  obtain ⟨hbit, hi32, -⟩ := bitScanForward_spec h0 hclt
  rw [hc, Nat.testBit_and, testBit_listMask (by omega), ← hc] at hbit
  simp only [Bool.and_eq_true, decide_eq_true_eq] at hbit
  obtain ⟨hbit, -, hmi⟩ := hbit
  rw [hr.bitmap, decide_eq_true_eq] at hbit
  rw [if_pos h0]
  dsimp only
  set i := bitScanForward candidates with hi
  obtain ⟨d, hd, hdk, hda, hdi⟩ := hr.head_mem hbit
  have hd16 := (hl.size d hd).2 (by simp [hdk])
  by_cases hlast : i = totalNumFreeLists - 1
  · rw [if_neg (by simpa using hlast)]
    obtain ⟨l, hlist, hmem⟩ := hr.lists i
    have hfree : ∀ a ∈ l, ∃ b ∈ items, b.kind = .free ∧ b.addr = a := by
      intro a ha
      obtain ⟨b, hb, hbk, hba, -⟩ := (hmem a).mp ha
      exact ⟨b, hb, hbk, hba⟩
    have hlen := Rep.length_le hl hlist.nodup fun a ha => by
      obtain ⟨b, hb, -, hba⟩ := hfree a ha
      exact ⟨b, hb, hba⟩
    obtain ⟨r, hr', hspec⟩ := searchLast_spec hl hr request fuel hlist.chain
      (by omega) hfree
    refine ⟨r.map fun b => (b, i), by rw [hr']; rfl, fun b j hbj => ?_⟩
    obtain ⟨a, rfl, hab⟩ := Option.map_eq_some_iff.mp hbj
    obtain ⟨rfl, rfl⟩ := Prod.mk.inj hab
    obtain ⟨hal, hfit⟩ := hspec a rfl
    obtain ⟨e, he, hek, hea, hei⟩ := (hmem a).mp hal
    exact ⟨e, he, hek, hea, hei.symm, hfit e he hea⟩
  · rw [if_pos hlast]
    refine ⟨_, rfl, fun b j hbj => ?_⟩
    obtain ⟨rfl, rfl⟩ := Prod.mk.inj (Option.some.inj hbj)
    refine ⟨d, hd, hdk, hda, hdi.symm, ?_⟩
    have := le_of_listFits (s := request) (p := d.size - 8) (by omega) (by omega)
      (by rw [hdi]; exact hlast)
    omega


/-! ## `FindBlock` -/

theorem systemSize_spec {request : Nat} (h : request ≤ 4294967264) :
    request + 8 ≤ systemSize request ∧ systemSize request ≤ 4294967272 := by
  have htable : ∀ j < 24, freeListBlockSizes.getD j 0 ≤ 1024 := by decide
  unfold systemSize totalNumFreeLists metadataTotal
  dsimp only
  split
  · next hi =>
    have h1 := le_nextSizeClass hi
    have h2 := htable _ hi
    rw [wadd_eq (by omega)]
    omega
  · rw [wadd_eq (by omega)]
    omega

/-- `get_memory` returns `NULL` or fresh memory; `given` is the memory the heap has from it. -/
structure GivesFresh {σ : Type} (getMemory : GetMemory σ) (given : σ → List Chunk) : Prop where
  returns : ∀ e n, ∃ r, getMemory e n = .ok r
  refuses : ∀ e n e', getMemory e n = .ok (e', none) → given e' = given e
  gives : ∀ e n e' c, getMemory e n = .ok (e', some c) →
    Fresh (given e) n c ∧ given e' = c :: given e

/-- Bit 1 is clear in the words that become headers of blocks in the new memory `c`. -/
def CleanChunk (h : Heap) (c : Chunk) (request : Nat) : Prop :=
  fencepostBit (h.mem (c.base + 8)) = false ∧ CleanCut h (c.base + 8) (c.len - 16) request

/-- Fenceposts are all that is next to the block of a new chunk. -/
theorem newItems_neighbours {c : Chunk} {needed : Nat} (hl : Layout chunks items)
    (hf : Fresh chunks needed c) (hlen : 32 ≤ c.len) : ∀ d ∈ newItems c ++ items,
    d.addr = c.base + 8 + (c.len - 16) ∨ c.base + 8 = d.addr + d.size → d.kind ≠ .free := by
  have hl' := layout_newItems hl hf hlen
  intro d hd hadj
  rcases hadj with hadj | hadj
  · obtain rfl : d = ⟨c.base + c.len - 8, 8, .fence⟩ :=
      hl'.eq_of_addr hd (by simp [newItems]) (by simp only; omega)
    simp
  · obtain rfl : d = ⟨c.base, 8, .fence⟩ :=
      hl'.eq_of_end hd (by simp [newItems]) (by simp only; omega)
    simp

/-- The memory of a new chunk is put on a list and a block is taken out of it. -/
theorem takeNew_spec {c : Chunk} {needed request fuel : Nat} (hl : Layout chunks items)
    (hr : Rep h items) (hset : Settled items) (hf : Fresh chunks needed c)
    (h8 : request % 8 = 0) (hreq : 8 ≤ request) (hneed : request + 24 ≤ needed)
    (hfuel : 2 ≤ fuel) : ∃ h1 h2 a items',
      addBlock fuel (layOut h c) (c.base + 8) = .ok (h1, c.base + 8) ∧
      allocateBlock fuel h1 (c.base + 8) (listOf h1 (c.base + 8)) request = .ok (h2, a) ∧
      Taken h items (c :: chunks) h2 items' request a ∧
      (FenceBits h items → CleanChunk h c request → FenceBits h2 items') := by
  have hsize := hf.size
  have hlen : 32 ≤ c.len := by omega
  have hl1 := layout_newItems hl hf hlen
  obtain ⟨hr1, hfence⟩ := layOut_spec hl hr hf hlen
  set b : Item := ⟨c.base + 8, c.len - 16, .held⟩ with hb
  have hbm : b ∈ newItems c ++ items := by simp [newItems, hb]
  have honly : ∀ d ∈ newItems c ++ items, d.kind = .held → d = b := by
    intro d hd hdk
    rcases List.mem_append.mp hd with hd | hd
    · simp only [newItems, List.mem_cons, List.not_mem_nil, or_false] at hd
      rcases hd with rfl | rfl | rfl
      · simp at hdk
      · simp at hdk
      · rfl
    · exact absurd hdk (hset d hd)
  have hnb := newItems_neighbours hl hf hlen
  obtain ⟨fuel, rfl⟩ : ∃ f, fuel = f + 1 := ⟨fuel - 1, by omega⟩
  obtain ⟨h1, hadd, hret⟩ := addBlock_linked_spec hl1 hr1 hbm rfl honly hnb fuel
  have hlink := addBlock_linked hl1 hr1 hbm rfl (fun d hd hadj => ⟨hnb d hd hadj, fun hdk => by
    obtain rfl := honly d hd hdk
    simp only [hb] at hadj
    omega⟩) fuel
  obtain rfl : linkFree (layOut h c) (getInsertionIndex (b.size - 8)) b.addr = h1 :=
    congrArg Prod.fst (Except.ok.inj (hlink.symm.trans hadd))
  have hmem := (linkFree_spec hl1 hr1 hbm rfl).mem
  set h1 := linkFree (layOut h c) (getInsertionIndex (b.size - 8)) b.addr with hh1
  obtain ⟨h2, a, items', halloc, htaken, hfe⟩ := allocateBlock_spec hret.reshaped.layout
    hret.reshaped.rep hret.noHeld (b := { b with kind := .free }) List.mem_cons_self rfl
    (i := listOf h1 b.addr) rfl h8 hreq (by simp only [hb]; omega) hfuel
  have hused : usedOf (newItems c ++ items) = usedOf items := by
    rw [usedOf_append, show usedOf (newItems c) = [] from rfl]
    rfl
  have hperm : (usedOf ({ b with kind := .free } :: (newItems c ++ items).erase b)).Perm
      (usedOf items) := hused ▸ hret.reshaped.used
  refine ⟨h1, h2, a, items', hadd, halloc, ⟨htaken.layout, htaken.rep, htaken.settled, ?_, ?_,
    htaken.outstanding.trans hret.reshaped.outstanding,
    htaken.returnsMemory.trans hret.reshaped.returnsMemory⟩, fun hfe0 hclean => ?_⟩
  · obtain ⟨u, hu, hua, hus, hup⟩ := htaken.taken
    exact ⟨u, hu, hua, hus, hup.trans (hperm.cons u)⟩
  · intro u hu x hx
    have hui := (mem_usedOf.mp hu).1
    rw [htaken.kept u (hperm.mem_iff.mpr hu) x hx, hret.reshaped.frame x (hl1.not_loose
      (List.mem_append_right _ hui) (Or.inr (mem_usedOf.mp hu).2) hx)]
    exact layOut_frame hlen hf.multiple hf.start hf.stop (hf.not_inside hl hui hx)
  · refine hfe (hret.fence (hfence hfe0 hclean.1)) ?_
    rcases hclean.2 with hsmall | hbit
    · exact Or.inl hsmall
    · by_cases hcut : c.len - 16 - (request + 8) < 16
      · exact Or.inl hcut
      refine Or.inr ?_
      show fencepostBit (h1.mem (c.base + 8 + (c.len - 16 - (request + 8)))) = false
      have hstop := hf.stop
      have hm8 := hf.multiple
      have hstart := hf.start
      -- the word at the cut is in the block, behind its links
      rw [hmem, layOut_mem hlen hf.multiple hf.start hf.stop, if_neg (by omega),
        if_neg (by omega), if_neg (by omega), layTags_mem hlen hf.multiple hf.start hf.stop,
        if_neg (by omega), if_neg (by omega), if_neg (by omega), if_neg (by omega),
        if_neg (by omega), if_neg (by omega)]
      · exact hbit
      · intro d hd hdk
        rcases List.mem_append.mp hd with hd | hd
        · simp only [newItems, List.mem_cons, List.not_mem_nil, or_false] at hd
          rcases hd with rfl | rfl | rfl <;> simp at hdk
        · have h16 := (hl.size d hd).2 (by simp [hdk])
          have := hf.not_inside hl hd (x := d.addr + 8) (by rw [inside_iff]; omega)
          omega
      · simp only [hb]; omega
      · simp only [hb]; omega
      · simp only [hb]; omega

section FindBlock

variable {σ : Type} {getMemory : GetMemory σ} {given : σ → List Chunk} {e : σ}

/-- Bit 1 is clear in the words that become headers of blocks when `request` bytes are taken. -/
def CleanTake (getMemory : GetMemory σ) (fuel : Nat) (e : σ) (h : Heap) (request : Nat) : Prop :=
  match findFree fuel h request with
  | .ok (some (b, _)) => CleanCut h b (getSize h b) request
  | .ok none =>
    match getMemory e (wadd (systemSize request) (minReqSize * 2)) with
    | .ok (_, some c) => CleanChunk h c request
    | _ => True
  | .error _ => True

/-- What `FindBlock` leaves: nothing has changed, or a block at `a` has come into use. -/
def Found (h : Heap) (items : List Item) (before after : List Chunk) (h' : Heap)
    (items' : List Item) (request a : Nat) : Prop :=
  a = 0 ∧ h' = h ∧ items' = items ∧ after = before ∨
    a ≠ 0 ∧ Taken h items after h' items' request a

theorem findBlock_spec (hg : GivesFresh getMemory given) (hl : Layout (given e) items)
    (hr : Rep h items) (hset : Settled items) {request fuel : Nat} (h8 : request % 8 = 0)
    (hreq : 8 ≤ request) (hle : request ≤ 4294967264) (hfuel : 4294967296 < fuel) :
    ∃ e' h' a items', findBlock getMemory fuel e h request = .ok (e', h', a) ∧
      Found h items (given e) (given e') h' items' request a ∧
      (FenceBits h items → CleanTake getMemory fuel e h request → FenceBits h' items') := by
  obtain ⟨r, hfind, hfits⟩ := findFree_spec hl hr request hfuel
  unfold findBlock CleanTake
  simp only [hfind]
  cases r with
  | some found =>
    obtain ⟨b, i⟩ := found
    obtain ⟨d, hd, hdk, rfl, hdi, hfit⟩ := hfits b i rfl
    obtain ⟨h', a, items', halloc, htaken, hfe⟩ := allocateBlock_spec hl hr hset hd hdk
      (i := i) (by rw [hdi, hr.listOf_eq hl hd]) h8 hreq hfit (show 2 ≤ fuel by omega)
    obtain ⟨u, huk, hua, -, hup⟩ := htaken.taken
    have hum : u ∈ items' := (mem_usedOf.mp (hup.mem_iff.mpr List.mem_cons_self)).1
    have hu0 := (htaken.layout.bounds hum).1
    refine ⟨e, h', a, items', ?_, Or.inr ⟨by omega, htaken⟩, fun hf hclean => hfe hf ?_⟩
    · show (allocateBlock fuel h d.addr i request).bind _ = _
      rw [halloc]
      rfl
    · change CleanCut h d.addr (getSize h d.addr) request at hclean
      rwa [(hr.tagged d hd).header] at hclean
  | none =>
    obtain ⟨hs1, hs2⟩ := systemSize_spec hle
    obtain ⟨⟨e', m⟩, hget⟩ := hg.returns e (wadd (systemSize request) (minReqSize * 2))
    have hneed : wadd (systemSize request) (minReqSize * 2) = systemSize request + 16 :=
      wadd_eq (by unfold minReqSize; omega)
    simp only [hget]
    cases m with
    | none =>
      refine ⟨e', h, 0, items, ?_, Or.inl ⟨rfl, rfl, rfl, hg.refuses _ _ _ hget⟩,
        fun hf _ => hf⟩
      show growAndAllocate getMemory fuel e h request = _
      unfold growAndAllocate requestBlock
      rw [hget]
      rfl
    | some c =>
      obtain ⟨hfresh, hgiven⟩ := hg.gives _ _ _ _ hget
      rw [hneed] at hfresh
      obtain ⟨h1, h2, a, items', hadd, halloc, htaken, hfe⟩ := takeNew_spec hl hr hset hfresh h8
        hreq (by omega) (show 2 ≤ fuel by omega)
      have hstart := hfresh.start
      have hsize := hfresh.size
      have hblock := (layOut_places (by omega) hfresh.multiple hfresh.start hfresh.stop).1
      obtain ⟨u, huk, hua, -, hup⟩ := htaken.taken
      have hum : u ∈ items' := (mem_usedOf.mp (hup.mem_iff.mpr List.mem_cons_self)).1
      have hu0 := (htaken.layout.bounds hum).1
      refine ⟨e', h2, a, items', ?_, Or.inr ⟨by omega, hgiven ▸ htaken⟩, hfe⟩
      show growAndAllocate getMemory fuel e h request = _
      unfold growAndAllocate requestBlock
      rw [hget]
      simp only [bind, Except.bind, hblock, show c.base + 8 ≠ 0 by omega, if_false, hadd, halloc]

end FindBlock

end Nolrem.Mem
