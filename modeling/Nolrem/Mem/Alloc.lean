import Nolrem.Mem.AddBlock

/-!
# Taking blocks into use

`AllocateBlock` takes a free block, or the end of it; `RequestBlock` lays out new memory; the
two searches of `FindBlock` find a block that is big enough.
-/

namespace Nolrem.Mem

open Nolrem.Lib

variable {h h' : Heap} {chunks : List Chunk} {items items' : List Item} {b d : Item}

/-- No block is held: the state between two calls. -/
def Settled (items : List Item) : Prop := ∀ d ∈ items, d.kind ≠ .held

/-- A block at `a` with room for `request` bytes has come into use. -/
structure Taken (h : Heap) (items : List Item) (chunks' : List Chunk) (h' : Heap)
    (items' : List Item) (request a : Nat) : Prop where
  layout : Layout chunks' items'
  rep : Rep h' items'
  settled : Settled items'
  taken : ∃ u, u.kind = .used ∧ u.addr = a ∧ request + 8 ≤ u.size ∧
    (usedOf items').Perm (u :: usedOf items)
  /-- No block in use is written to. -/
  kept : ∀ u ∈ usedOf items, ∀ x, Inside Item.span u x → h'.mem x = h.mem x
  outstanding : h'.outstandingAllocatedMemory = h.outstandingAllocatedMemory
  returnsMemory : h'.returnsMemory = h.returnsMemory

theorem markAllocated_mem {a x : Nat} :
    (markAllocated h a).mem x = if x = a then h.mem a ||| 1 else h.mem x := write_mem x

theorem markFree_mem {a x : Nat} :
    (markFree h a).mem x = if x = a then h.mem a &&& 4294967294 else h.mem x := write_mem x

theorem markFencepost_mem {a x : Nat} :
    (markFencepost h a).mem x = if x = a then h.mem a ||| 2 else h.mem x := write_mem x

/-- Held blocks come into use or are cut. -/
theorem retag_held (new : List Item) {rest : List Item} (hl : Layout chunks items) (hr : Rep h items)
    (hb : b ∈ items) (hk : b.kind = .held) (hp : items.Perm ([b] ++ rest))
    (hcover : ∀ x, cover Item.span new x = cover Item.span [b] x)
    (hnew : ∀ d ∈ new, (d.kind = .used ∨ d.kind = .held) ∧ 16 ≤ d.size ∧ d.size % 8 = 0 ∧
      Tagged h' d)
    (hmem : ∀ x, ¬ Inside Item.span b x → h'.mem x = h.mem x)
    (hwords : ∀ a, h'.mem a < 4294967296) (hhead : h'.headBlock = h.headBlock)
    (hbitmap : h'.freeListBitmap = h.freeListBitmap) :
    Layout chunks (new ++ rest) ∧ Rep h' (new ++ rest) := by
  have hnodup := List.nodup_append.mp (hp.nodup_iff.mp hl.nodup)
  have hkind : ∀ d ∈ new, d.kind ≠ .free ∧ d.kind ≠ .fence := by
    intro d hd
    rcases (hnew d hd).1 with hdk | hdk <;> simp [hdk]
  constructor
  · refine hl.replace hp hcover (by simp [hk]) (fun d hd => ?_) fun d hd hdk =>
      absurd hdk (hkind d hd).1
    obtain ⟨-, h1, h2, -⟩ := hnew d hd
    exact ⟨(hkind d hd).2, h1, h2⟩
  · refine hr.retag hl hp (by simp [hk]) (fun d hd => ⟨(hkind d hd).1, (hnew d hd).2.2.2⟩)
      (fun d hd x hx => hmem x fun hbx => ?_) hwords hhead hbitmap
    obtain rfl := hl.eq_of_inside hb (hp.mem_iff.mpr (List.mem_append_right _ hd)) hbx hx
    exact hnodup.2.2 b List.mem_cons_self b hd rfl

/-! ## `AllocateBlock` -/

theorem takeWhole_mem {i a s : Nat} (hs : s = getSize h a) (h8 : s % 8 = 0) (hpos : 8 ≤ s)
    (hend : a + s ≤ 4294967296) (x : Nat) : (takeWhole h i a).mem x =
      if x = a then withSize ((removeBlock h i a).mem a) s ||| 1
      else if x = a + s - 4 then s else (removeBlock h i a).mem x := by
  unfold takeWhole
  rw [← hs, markAllocated_mem, setSizeTags_mem h8 (by omega) hend,
    setSizeTags_mem h8 (by omega) hend, if_neg (show a ≠ a + s - 4 by omega), if_pos rfl]
  split <;> rfl

theorem usedOf_cons_erase (hb : b ∈ items) (hk : b.kind ≠ .used) {u : Item}
    (hu : u.kind = .used) : (usedOf (u :: items.erase b)).Perm (u :: usedOf items) := by
  have h1 : usedOf (u :: items.erase b) = u :: usedOf (items.erase b) :=
    List.filter_cons_of_pos (by simp [hu])
  have h2 : usedOf (b :: items.erase b) = usedOf (items.erase b) :=
    List.filter_cons_of_neg (by simp [hk])
  rw [h1, ← h2]
  exact (usedOf_perm (List.perm_cons_erase hb)).symm.cons _

theorem takeWhole_spec (hl : Layout chunks items) (hr : Rep h items) (hset : Settled items)
    (hb : b ∈ items) (hk : b.kind = .free) {i request : Nat} (hi : i = listOf h b.addr)
    (hreq : request + 8 ≤ b.size) : ∃ items', Taken h items chunks (takeWhole h i b.addr) items'
      request b.addr ∧ (FenceBits h items → FenceBits (takeWhole h i b.addr) items') ∧
      items' = { b with kind := .used } :: items.erase b := by
  obtain ⟨hu, huf⟩ := unlink_reshaped hl hr hb hk hi
  have hbf : b.kind ≠ .fence := by simp [hk]
  have hbs := hl.size b hb
  have hb16 := hbs.2 hbf
  have hbb := hl.bounds hb
  have hsize := (hr.tagged b hb).header
  have hp : ({ b with kind := .held } :: items.erase b).Perm
      ([{ b with kind := .held }] ++ items.erase b) := List.Perm.refl _
  have hmem := takeWhole_mem (i := i) hsize.symm hbs.1 (by omega) hbb.2
  have hframe : ∀ x, ¬ Inside Item.span { b with kind := .held } x →
      (takeWhole h i b.addr).mem x = (removeBlock h i b.addr).mem x := by
    intro x hx
    rw [inside_iff] at hx
    simp only at hx
    rw [hmem, if_neg (by omega), if_neg (by omega)]
  have hwords : ∀ x, (takeWhole h i b.addr).mem x < 4294967296 := by
    intro x
    have := hu.rep.words x
    rw [hmem]
    split
    · exact Nat.or_lt_two_pow (n := 32) (withSize_lt (by omega)) (by decide)
    · split
      · omega
      · exact this
  have htag : Tagged (takeWhole h i b.addr) { b with kind := .used } := by
    refine ⟨?_, ?_, fun _ => ?_⟩
    · unfold getSize
      rw [hmem, if_pos rfl, sizeBits_or (by decide), sizeBits_withSize hbs.1 (by omega)]
    · rw [hmem, if_neg (by simp only; omega), if_pos rfl]
    · unfold isAllocated
      rw [hmem, if_pos rfl, (flags_or_one _).1]
      rfl
  obtain ⟨hl', hr'⟩ := retag_held [{ b with kind := .used }] hu.layout hu.rep
    List.mem_cons_self rfl hp (fun x => rfl) (by
      simp only [List.mem_singleton, forall_eq]
      exact ⟨Or.inl trivial, hb16, hbs.1, htag⟩) hframe hwords rfl rfl
  refine ⟨_, ⟨hl', hr', fun d hd => ?_, ⟨{ b with kind := .used }, rfl, rfl, hreq,
    usedOf_cons_erase hb (by simp [hk]) rfl⟩, fun u hu' x hx => ?_, hu.outstanding,
    hu.returnsMemory⟩, fun hf => ?_, rfl⟩
  · rcases List.mem_cons.mp hd with rfl | hd
    · simp
    · exact hset d (List.mem_of_mem_erase hd)
  · obtain ⟨hui, huk⟩ := mem_usedOf.mp hu'
    rw [hframe, hu.frame x (hl.not_loose hui (Or.inr huk) hx)]
    intro hbx
    obtain rfl := hl.eq_of_inside hui hb hx hbx
    simp [hk] at huk
  · refine (huf hf).replace [{ b with kind := .used }] hp (fun d hd => ?_) fun d hd => ?_
    · obtain rfl := List.mem_singleton.mp hd
      have := huf hf _ List.mem_cons_self
      unfold isFencepost at this ⊢
      rw [hmem, if_pos rfl, (flags_or_one _).2, fencepostBit_withSize hbs.1, this]
      rfl
    · obtain ⟨hne, hdi⟩ := hl.nodup.mem_erase_iff.mp hd
      refine hframe _ fun hbx => hne (hl.eq_of_inside hdi hb (x := d.addr) ?_ hbx)
      have := hl.size_pos hdi
      rw [inside_iff]
      omega

theorem cutBlock_mem {i a : Nat} (left total : Nat) (h8 : left % 8 = 0) (h8' : total % 8 = 0)
    (hleft : 16 ≤ left) (htotal : 16 ≤ total) (hend : a + left + total ≤ 4294967296) (x : Nat) :
    (cutBlock h i a left total).mem x =
      if x = a then withSize ((removeBlock h i a).mem a) left &&& 4294967294
      else if x = a + left then withSize ((removeBlock h i a).mem (a + left)) total ||| 1
      else if x = a + left + total - 4 then total
      else if x = a + left - 4 then left else (removeBlock h i a).mem x := by
  unfold cutBlock
  simp only [plusBytes_eq (show left % 4 = 0 by omega) (show a + left < 4294967296 by omega),
    markFree_mem, markAllocated_mem, setSizeTags_mem h8' (show 0 < total by omega) hend,
    setSizeTags_mem h8 (show 0 < left by omega) (show a + left ≤ 4294967296 by omega)]
  have h1 : a ≠ a + left := by omega
  have h2 : a ≠ a + left + total - 4 := by omega
  have h3 : a ≠ a + left - 4 := by omega
  have h4 : a + left ≠ a + left + total - 4 := by omega
  have h5 : a + left ≠ a + left - 4 := by omega
  simp only [h1, h2, h3, h4, h5, h1.symm, if_true, if_false]
  by_cases hx : x = a
  · rw [if_pos hx, if_pos hx]
  rw [if_neg hx, if_neg hx, if_neg hx]
  by_cases hx' : x = a + left
  · rw [if_pos hx', if_pos hx']
  · rw [if_neg hx', if_neg hx', if_neg hx']

section Cut

variable {i a left total : Nat} (h8 : left % 8 = 0) (h8' : total % 8 = 0) (hleft : 16 ≤ left)
  (htotal : 16 ≤ total) (hend : a + left + total ≤ 4294967296)
include h8 h8' hleft htotal hend

/-- Nothing outside of the block is written. -/
theorem cutBlock_frame {x : Nat} (hx : ¬(a ≤ x ∧ x < a + (left + total))) :
    (cutBlock h i a left total).mem x = (removeBlock h i a).mem x := by
  rw [cutBlock_mem left total h8 h8' hleft htotal hend, if_neg (by omega), if_neg (by omega),
    if_neg (by omega), if_neg (by omega)]

theorem cutBlock_words (hwords : ∀ x, (removeBlock h i a).mem x < 4294967296) (x : Nat) :
    (cutBlock h i a left total).mem x < 4294967296 := by
  have := hwords x
  rw [cutBlock_mem left total h8 h8' hleft htotal hend]
  split
  · exact lt_of_le_of_lt Nat.and_le_right (by decide)
  · split
    · exact Nat.or_lt_two_pow (n := 32) (withSize_lt (by omega)) (by decide)
    · split
      · omega
      · split <;> omega

theorem cutBlock_tagged_left : Tagged (cutBlock h i a left total) ⟨a, left, .held⟩ := by
  have hmem := cutBlock_mem (h := h) (i := i) left total h8 h8' hleft htotal hend
  refine ⟨?_, ?_, fun hne => absurd rfl hne⟩
  · unfold getSize
    rw [hmem, if_pos rfl, sizeBits_and_freeMask, sizeBits_withSize h8 (by omega)]
  · rw [hmem, if_neg (by simp only; omega), if_neg (by simp only; omega),
      if_neg (by simp only; omega), if_pos rfl]

theorem cutBlock_tagged_used : Tagged (cutBlock h i a left total) ⟨a + left, total, .used⟩ := by
  have hmem := cutBlock_mem (h := h) (i := i) left total h8 h8' hleft htotal hend
  refine ⟨?_, ?_, fun _ => ?_⟩
  · unfold getSize
    rw [hmem, if_neg (by simp only; omega), if_pos rfl, sizeBits_or (by decide),
      sizeBits_withSize h8' (by omega)]
  · rw [hmem, if_neg (by simp only; omega), if_neg (by simp only; omega), if_pos rfl]
  · unfold isAllocated
    rw [hmem, if_neg (by simp only; omega), if_pos rfl, (flags_or_one _).1]
    rfl

/-- The first part is a fencepost if the block was, the second one if its word says so. -/
theorem cutBlock_fenceposts :
    isFencepost (cutBlock h i a left total) a = isFencepost (removeBlock h i a) a ∧
      isFencepost (cutBlock h i a left total) (a + left) =
        fencepostBit ((removeBlock h i a).mem (a + left)) := by
  have hmem := cutBlock_mem (h := h) (i := i) left total h8 h8' hleft htotal hend
  unfold isFencepost
  constructor
  · rw [hmem, if_pos rfl, (flags_and_freeMask _).2, fencepostBit_withSize h8]
  · rw [hmem, if_neg (by omega), if_pos rfl, (flags_or_one _).2, fencepostBit_withSize h8']

end Cut

/-- Bit 1 of the word that becomes the header of the second part is clear. -/
def CleanCut (h : Heap) (a size request : Nat) : Prop :=
  size - (request + 8) < 16 ∨ fencepostBit (h.mem (a + (size - (request + 8)))) = false

theorem takeEnd_spec (hl : Layout chunks items) (hr : Rep h items) (hset : Settled items)
    (hb : b ∈ items) (hk : b.kind = .free) {i request fuel : Nat} (hi : i = listOf h b.addr)
    (h8 : request % 8 = 0) (hreq : 8 ≤ request) (hroom : request + 24 ≤ b.size)
    (hfuel : 2 ≤ fuel) : ∃ h' a items', takeEnd fuel h i b.addr (request + 8) = .ok (h', a) ∧
      Taken h items chunks h' items' request a ∧
      (FenceBits h items → CleanCut h b.addr b.size request → FenceBits h' items') := by
  obtain ⟨hu, huf⟩ := unlink_reshaped hl hr hb hk hi
  have hbf : b.kind ≠ .fence := by simp [hk]
  have hbs := hl.size b hb
  have hbb := hl.bounds hb
  have hsize := (hr.tagged b hb).header
  obtain ⟨left, hleft⟩ : ∃ left, b.size = left + (request + 8) :=
    ⟨b.size - (request + 8), by omega⟩
  have hp : ({ b with kind := .held } :: items.erase b).Perm
      ([{ b with kind := .held }] ++ items.erase b) := List.Perm.refl _
  have hframe : ∀ x, ¬ Inside Item.span { b with kind := .held } x →
      (cutBlock h i b.addr left (request + 8)).mem x = (removeBlock h i b.addr).mem x := by
    intro x hx
    rw [inside_iff] at hx
    simp only at hx
    exact cutBlock_frame (by omega) (by omega) (by omega) (by omega) (by omega) (by omega)
  have hwords := cutBlock_words (h := h) (i := i) (a := b.addr) (show left % 8 = 0 by omega)
    (show (request + 8) % 8 = 0 by omega) (by omega) (by omega) (by omega) hu.rep.words
  have htagv := cutBlock_tagged_left (h := h) (i := i) (a := b.addr) (show left % 8 = 0 by omega)
    (show (request + 8) % 8 = 0 by omega) (by omega) (by omega) (by omega)
  have hposts := cutBlock_fenceposts (h := h) (i := i) (a := b.addr) (show left % 8 = 0 by omega)
    (show (request + 8) % 8 = 0 by omega) (by omega) (by omega) (by omega)
  have htagu := cutBlock_tagged_used (h := h) (i := i) (a := b.addr) (show left % 8 = 0 by omega)
    (show (request + 8) % 8 = 0 by omega) (by omega) (by omega) (by omega)
  obtain ⟨hl', hr'⟩ := retag_held [⟨b.addr, left, .held⟩, ⟨b.addr + left, request + 8, .used⟩]
    hu.layout hu.rep List.mem_cons_self rfl hp (fun x => by
      simp only [cover_cons, cover_nil, Item.span]
      rw [hit_split (b := b.addr + left) (c := b.addr + b.size) (by omega) (by omega) x, hleft,
        Nat.add_assoc b.addr left]
      rfl) (by
      simp only [List.mem_cons, List.not_mem_nil, or_false, forall_eq_or_imp, forall_eq]
      exact ⟨⟨Or.inr trivial, by omega, by omega, htagv⟩, Or.inl trivial, by omega, by omega,
        htagu⟩) hframe hwords rfl rfl
  have hrest : ∀ d ∈ items.erase b, d ∈ items ∧ d ≠ b := fun d hd => by
    obtain ⟨h1, h2⟩ := hl.nodup.mem_erase_iff.mp hd
    exact ⟨h2, h1⟩
  obtain ⟨h', r, items', hadd, hret⟩ := addBlock_spec hl' hr' (b := ⟨b.addr, left, .held⟩)
    (by simp) rfl (fun d hd hdk => by
      simp only [List.cons_append, List.nil_append, List.mem_cons] at hd
      rcases hd with rfl | rfl | hd
      · rfl
      · simp at hdk
      · exact absurd hdk (hset d (hrest d hd).1)) hfuel
  refine ⟨h', b.addr + left, items', ?_, ⟨hret.reshaped.layout, hret.reshaped.rep, hret.noHeld,
    ⟨⟨b.addr + left, request + 8, .used⟩, rfl, rfl, Nat.le_refl _, ?_⟩, fun u hu' x hx => ?_,
    hret.reshaped.outstanding.trans hu.outstanding,
    hret.reshaped.returnsMemory.trans hu.returnsMemory⟩, fun hf hclean => hret.fence ?_⟩
  · have hleftover : wsub b.size (request + 8) = left := by
      rw [wsub_eq (by omega) (by omega)]
      omega
    unfold takeEnd
    simp only at hadd
    simp only [hsize, hleftover, hadd, plusBytes_eq (show left % 4 = 0 by omega)
      (show b.addr + left < 4294967296 by omega)]
    rfl
  · refine hret.reshaped.used.trans ?_
    exact usedOf_cons_erase hb (by simp [hk]) (u := ⟨b.addr + left, request + 8, .used⟩) rfl
  · obtain ⟨hui, huk⟩ := mem_usedOf.mp hu'
    have hub : u ≠ b := fun hub => by simp [hub, hk] at huk
    have hue : u ∈ items.erase b := hl.nodup.mem_erase_iff.mpr ⟨hub, hui⟩
    rw [hret.reshaped.frame x (hl'.not_loose (List.mem_append_right _ hue) (Or.inr huk) hx),
      hframe, hu.frame x (hl.not_loose hui (Or.inr huk) hx)]
    exact fun hbx => hub (hl.eq_of_inside hui hb hx hbx)
  · refine (huf hf).replace [⟨b.addr, left, .held⟩, ⟨b.addr + left, request + 8, .used⟩]
      hp (fun d hd => ?_) fun d hd => ?_
    · simp only [List.mem_cons, List.not_mem_nil, or_false] at hd
      rcases hd with rfl | rfl
      · exact hposts.1.trans (huf hf _ List.mem_cons_self)
      · have hcut : fencepostBit (h.mem (b.addr + left)) = false := by
          rcases hclean with hc | hc
          · omega
          · rw [show b.size - (request + 8) = left by omega] at hc
            exact hc
        have hsame : (removeBlock h i b.addr).mem (b.addr + left) = h.mem (b.addr + left) := by
          refine (removeBlock_spec hl hr hb hk (i := i)
            (by rw [hi, hr.listOf_eq hl hb])).mem _ fun d hd hdk => ?_
          by_cases hdb : d = b
          · subst hdb
            omega
          · have h1 := hl.disjoint hd hb hdb
            have h2 := (hl.size d hd).2 (by simp [hdk])
            omega
        exact hposts.2.trans (by rw [hsame, hcut]; rfl)
    · obtain ⟨hdi, hne⟩ := hrest d hd
      refine hframe _ fun hbx => hne (hl.eq_of_inside hdi hb (x := d.addr) ?_ hbx)
      have := hl.size_pos hdi
      rw [inside_iff]
      omega

/-- `AllocateBlock` takes a block of the size that is asked for out of a free block. -/
theorem allocateBlock_spec (hl : Layout chunks items) (hr : Rep h items) (hset : Settled items)
    (hb : b ∈ items) (hk : b.kind = .free) {i request fuel : Nat} (hi : i = listOf h b.addr)
    (h8 : request % 8 = 0) (hreq : 8 ≤ request) (hroom : request + 8 ≤ b.size)
    (hfuel : 2 ≤ fuel) : ∃ h' a items', allocateBlock fuel h b.addr i request = .ok (h', a) ∧
      Taken h items chunks h' items' request a ∧
      (FenceBits h items → CleanCut h b.addr b.size request → FenceBits h' items') := by
  have hbb := hl.bounds hb
  have hbs := hl.size b hb
  unfold allocateBlock metadataTotal minReqSize
  simp only [(hr.tagged b hb).header, wadd_eq (show request + 8 < 4294967296 by omega),
    wsub_eq hroom (show b.size < 4294967296 by omega)]
  split
  · obtain ⟨items', ht, hf, -⟩ := takeWhole_spec hl hr hset hb hk hi hroom
    exact ⟨_, _, items', rfl, ht, fun hfe _ => hf hfe⟩
  · exact takeEnd_spec hl hr hset hb hk hi h8 hreq (by omega) hfuel

end Nolrem.Mem
