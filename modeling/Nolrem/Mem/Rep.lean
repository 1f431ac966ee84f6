import Nolrem.Lib.DList
import Nolrem.Mem.Layout

/-!
# What the words of memory say

`Rep h items` connects memory with a layout: the tags of every item, the free lists and the
bitmap. Work on blocks that are in use or held changes the items only (`Rep.retag`); taking a
block off its list and putting one on a list are the two operations on lists.
-/

namespace Nolrem.Mem

open Nolrem.Lib

/-- 0 is `NULL`. -/
def ptr (w : Nat) : Option Nat := if w = 0 then none else some w

@[simp] theorem ptr_eq_none {w : Nat} : ptr w = none ↔ w = 0 := by
  simp [ptr]

@[simp] theorem ptr_eq_some {w a : Nat} : ptr w = some a ↔ w = a ∧ a ≠ 0 := by
  unfold ptr
  split
  · next h =>
    simp only [reduceCtorEq, false_iff, not_and, ne_eq, not_not]
    exact fun ha => ha ▸ h
  · next h =>
    simp only [Option.some.injEq]
    exact ⟨fun h' => ⟨h', h' ▸ h⟩, fun h' => h'.1⟩

/-- The list `i` holds the blocks `l`. -/
def FreeList (h : Heap) (i : Nat) (l : List Nat) : Prop :=
  DChain (fun b => ptr (h.next b)) (fun b => ptr (h.prev b)) (ptr (h.headBlock i)) l

/-- The tags of an item; the flag of a held block says nothing. -/
structure Tagged (h : Heap) (b : Item) : Prop where
  header : getSize h b.addr = b.size
  trailer : h.mem (b.addr + b.size - 4) = b.size
  allocated : b.kind ≠ .held → isAllocated h b.addr = decide (b.kind ≠ .free)

structure Rep (h : Heap) (items : List Item) : Prop where
  words : ∀ a, h.mem a < 4294967296
  tagged : ∀ b ∈ items, Tagged h b
  lists : ∀ i, ∃ l, FreeList h i l ∧ ∀ a, a ∈ l ↔
    ∃ b ∈ items, b.kind = .free ∧ b.addr = a ∧ getInsertionIndex (b.size - 8) = i
  bitmap : ∀ i, h.freeListBitmap.testBit i = decide (h.headBlock i ≠ 0)

/-- The fencepost bit is set on the fenceposts and on no block. -/
def FenceBits (h : Heap) (items : List Item) : Prop :=
  ∀ b ∈ items, isFencepost h b.addr = decide (b.kind = .fence)

section Rep

variable {h h' : Heap} {chunks : List Chunk} {items : List Item} {b : Item}

theorem inside_iff {b : Item} {x : Nat} :
    Inside Item.span b x ↔ b.addr ≤ x ∧ x < b.addr + b.size := Iff.rfl

theorem Tagged.congr (ht : Tagged h b) (h1 : h'.mem b.addr = h.mem b.addr)
    (h2 : h'.mem (b.addr + b.size - 4) = h.mem (b.addr + b.size - 4)) : Tagged h' b := by
  refine ⟨?_, h2.trans ht.trailer, fun hk => ?_⟩
  · unfold getSize
    rw [h1]
    exact ht.header
  · unfold isAllocated
    rw [h1]
    exact ht.allocated hk

/-- The first free block on a list is a block of that size class. -/
theorem Rep.head_mem (hr : Rep h items) {i : Nat} (hi : h.headBlock i ≠ 0) : ∃ b ∈ items,
    b.kind = .free ∧ b.addr = h.headBlock i ∧ getInsertionIndex (b.size - 8) = i := by
  obtain ⟨l, hl, hmem⟩ := hr.lists i
  rw [← hmem]
  cases l with
  | nil =>
    obtain ⟨q, -, hs⟩ := hl
    exact absurd (ptr_eq_none.mp hs.symm) hi
  | cons a l =>
    obtain ⟨q, hs, -⟩ := hl
    rw [(ptr_eq_some.mp hs).1]
    simp

theorem Rep.headBlock_eq_zero (hr : Rep h items) {i : Nat} (hi : 24 ≤ i) : h.headBlock i = 0 := by
  by_contra hne
  obtain ⟨b, -, -, -, hb⟩ := hr.head_mem hne
  have := getInsertionIndex_lt (b.size - 8)
  omega

/-- Blocks that are on no list are changed, cut up or joined. -/
theorem Rep.retag {old new rest : List Item} (hr : Rep h items) (hl : Layout chunks items)
    (hp : items.Perm (old ++ rest)) (hold : ∀ b ∈ old, b.kind ≠ .free)
    (hnew : ∀ b ∈ new, b.kind ≠ .free ∧ Tagged h' b)
    (hmem : ∀ b ∈ rest, ∀ x, Inside Item.span b x → h'.mem x = h.mem x)
    (hwords : ∀ a, h'.mem a < 4294967296) (hhead : h'.headBlock = h.headBlock)
    (hbitmap : h'.freeListBitmap = h.freeListBitmap) : Rep h' (new ++ rest) := by
  have hrest : ∀ b ∈ rest, b ∈ items := fun b hb => hp.mem_iff.mpr (by simp [hb])
  have hfree : ∀ b, b.kind = .free → (b ∈ items ↔ b ∈ new ++ rest) := by
    intro b hk
    rw [hp.mem_iff, List.mem_append, List.mem_append]
    exact or_congr_left ⟨fun hb => absurd hk (hold b hb), fun hb => absurd hk (hnew b hb).1⟩
  refine ⟨hwords, fun b hb => ?_, fun i => ?_, fun i => ?_⟩
  · rcases List.mem_append.mp hb with hb | hb
    · exact (hnew b hb).2
    · have := hl.size_pos (hrest b hb)
      exact (hr.tagged b (hrest b hb)).congr (hmem b hb _ (by simp only [inside_iff]; omega))
        (hmem b hb _ (by simp only [inside_iff]; omega))
  · obtain ⟨l, hlist, hm⟩ := hr.lists i
    refine ⟨l, ?_, fun a => ?_⟩
    · unfold FreeList
      rw [hhead]
      refine DChain.congr (fun a ha => ?_) hlist
      obtain ⟨b, hb, hk, rfl, -⟩ := (hm a).mp ha
      have hb' : b ∈ rest := by
        rcases List.mem_append.mp (hp.mem_iff.mp hb) with hb | hb
        · exact absurd hk (hold b hb)
        · exact hb
      have := (hl.size b hb).2 (by simp [hk])
      unfold Heap.next Heap.prev
      rw [hmem b hb' _ (by simp only [inside_iff]; omega),
        hmem b hb' _ (by simp only [inside_iff]; omega)]
      exact ⟨rfl, rfl⟩
    · rw [hm a]
      constructor
      · rintro ⟨b, hb, hk, h1⟩
        exact ⟨b, (hfree b hk).mp hb, hk, h1⟩
      · rintro ⟨b, hb, hk, h1⟩
        exact ⟨b, (hfree b hk).mpr hb, hk, h1⟩
  · rw [hbitmap, hhead]
    exact hr.bitmap i

/-! ## Taking a block off its list -/

/-- What `RemoveBlock` writes: the links of the neighbours. -/
theorem removeBlock_mem {i b : Nat} (h1 : h.prev b ≠ b) (h2 : h.prev b + 4 ≠ b + 8)
    (h3 : h.prev b ≠ 0 → h.next b ≠ 0 → h.prev b + 4 ≠ h.next b + 8) (x : Nat) :
    (removeBlock h i b).mem x =
      if h.prev b ≠ 0 ∧ x = h.prev b + 4 then h.next b
      else if h.next b ≠ 0 ∧ x = h.next b + 8 then h.prev b else h.mem x := by
  unfold removeBlock
  split
  · next hc => simp [hc.1, hc.2]
  · split
    · next hc hp =>
      have hn : h.next b ≠ 0 := fun hn => hc ⟨hp, hn⟩
      by_cases hx : x = h.next b + 8
      · subst hx
        simp [Heap.setPrev, hp, hn]
      · simp [Heap.setPrev, hp, hx]
    · next hc hp =>
      split
      · next hn =>
        by_cases hx : x = h.prev b + 4
        · subst hx
          simp [Heap.setNext, hp, hn]
        · simp [Heap.setNext, hn, hx]
      · next hn =>
        have hnext : (h.setNext (h.prev b) (h.next b)).next b = h.next b :=
          write_mem_ne (show b + 4 ≠ h.prev b + 4 by omega)
        have hprev : (h.setNext (h.prev b) (h.next b)).prev b = h.prev b :=
          write_mem_ne (Ne.symm h2)
        simp only [hnext, hprev]
        by_cases hx : x = h.prev b + 4
        · rw [if_pos ⟨hp, hx⟩, hx]
          unfold Heap.setPrev Heap.setNext
          rw [write_mem_ne (h3 hp hn), write_mem_self]
        · rw [if_neg fun hc => hx hc.2]
          unfold Heap.setPrev Heap.setNext
          by_cases hx' : x = h.next b + 8
          · rw [if_pos ⟨hn, hx'⟩, hx', write_mem_self]
          · rw [if_neg fun hc => hx' hc.2, write_mem_ne hx', write_mem_ne hx]

theorem removeBlock_headBlock {i b : Nat} (j : Nat) : (removeBlock h i b).headBlock j =
    if j = i ∧ h.prev b = 0 then h.next b else h.headBlock j := by
  unfold removeBlock
  split
  · next hc =>
    by_cases hj : j = i
    · subst hj
      simp [hc.1, hc.2]
    · simp [hj]
  · split
    · next hp =>
      by_cases hj : j = i
      · subst hj
        simp [Heap.setPrev, hp]
      · simp [Heap.setPrev, hj]
    · next hp => split <;> simp [Heap.setNext, Heap.setPrev, hp]

theorem testBit_clear {i j : Nat} (hi : i < 32) (w : Nat) :
    (w &&& (4294967295 - listBit i)).testBit j =
      (w.testBit j && decide (j < 32) && decide (j ≠ i)) := by
  have hpow : (2 : Nat) ^ i < 2 ^ 32 := Nat.pow_lt_pow_right (by decide) hi
  have hmask : 4294967295 - listBit i = 2 ^ 32 - (2 ^ i + 1) := by
    unfold listBit
    rw [Nat.one_shiftLeft]
    omega
  rw [Nat.testBit_and, hmask, Nat.testBit_two_pow_sub_succ hpow, Nat.testBit_two_pow]
  have hcomm : decide (i = j) = decide (j = i) := decide_eq_decide.mpr eq_comm
  rw [hcomm]
  by_cases hji : j = i <;> simp [hji]

theorem removeBlock_bitmap {i b : Nat} (hi : i < 32) (j : Nat) :
    (removeBlock h i b).freeListBitmap.testBit j =
      if h.prev b = 0 ∧ h.next b = 0 then
        (h.freeListBitmap.testBit j && decide (j < 32) && decide (j ≠ i))
      else h.freeListBitmap.testBit j := by
  unfold removeBlock
  split
  · next hc => exact testBit_clear hi _
  · split
    · rfl
    · split <;> rfl

/-- `h'` is `h` with `b` off its list. -/
structure Unlinked (h h' : Heap) (items : List Item) (b : Item) : Prop where
  rep : Rep h' ({ b with kind := .held } :: items.erase b)
  mem : ∀ x, (∀ d ∈ items, d.kind = .free → x ≠ d.addr + 4 ∧ x ≠ d.addr + 8) →
    h'.mem x = h.mem x
  outstanding : h'.outstandingAllocatedMemory = h.outstandingAllocatedMemory
  returnsMemory : h'.returnsMemory = h.returnsMemory

section Unlink

variable {i : Nat}

/-- The block before it on the list is another free block of the class. -/
theorem Rep.prev_mem (hr : Rep h items) (hb : b ∈ items) (hk : b.kind = .free)
    (hi : getInsertionIndex (b.size - 8) = i) (hne : h.prev b.addr ≠ 0) :
    ∃ p ∈ items, p.kind = .free ∧ p.addr = h.prev b.addr ∧
      getInsertionIndex (p.size - 8) = i ∧ p.addr ≠ b.addr := by
  obtain ⟨l, hlist, hm⟩ := hr.lists i
  obtain ⟨hpl, hpb⟩ := (hlist.neighbours ((hm _).mpr ⟨b, hb, hk, rfl, hi⟩)).2 (h.prev b.addr)
    (ptr_eq_some.mpr ⟨rfl, hne⟩)
  obtain ⟨p, hp, hpk, hpa, hpi⟩ := (hm _).mp hpl
  exact ⟨p, hp, hpk, hpa, hpi, by rw [hpa]; exact hpb⟩

/-- So is the block behind it. -/
theorem Rep.next_mem (hr : Rep h items) (hb : b ∈ items) (hk : b.kind = .free)
    (hi : getInsertionIndex (b.size - 8) = i) (hne : h.next b.addr ≠ 0) :
    ∃ p ∈ items, p.kind = .free ∧ p.addr = h.next b.addr ∧
      getInsertionIndex (p.size - 8) = i ∧ p.addr ≠ b.addr := by
  obtain ⟨l, hlist, hm⟩ := hr.lists i
  obtain ⟨hpl, hpb⟩ := (hlist.neighbours ((hm _).mpr ⟨b, hb, hk, rfl, hi⟩)).1 (h.next b.addr)
    (ptr_eq_some.mpr ⟨rfl, hne⟩)
  obtain ⟨p, hp, hpk, hpa, hpi⟩ := (hm _).mp hpl
  exact ⟨p, hp, hpk, hpa, hpi, by rw [hpa]; exact hpb⟩

variable (hl : Layout chunks items) (hr : Rep h items) (hb : b ∈ items) (hk : b.kind = .free)
  (hi : getInsertionIndex (b.size - 8) = i)
include hl hr hb hk hi

/-- The two links that are written are different words. -/
theorem removeBlock_writes (x : Nat) : (removeBlock h i b.addr).mem x =
    if h.prev b.addr ≠ 0 ∧ x = h.prev b.addr + 4 then h.next b.addr
    else if h.next b.addr ≠ 0 ∧ x = h.next b.addr + 8 then h.prev b.addr else h.mem x := by
  have hpos := (hl.bounds hb).1
  refine removeBlock_mem ?_ ?_ (fun h0 h0' => ?_) x
  · by_cases h0 : h.prev b.addr = 0
    · omega
    · obtain ⟨p, -, -, hpa, -, hpb⟩ := hr.prev_mem hb hk hi h0
      omega
  · by_cases h0 : h.prev b.addr = 0
    · omega
    · obtain ⟨p, hp, hpk, hpa, -⟩ := hr.prev_mem hb hk hi h0
      rw [← hpa]
      exact hl.link_ne hp hb (by simp [hpk]) (by simp [hk])
  · obtain ⟨p, hp, hpk, hpa, -⟩ := hr.prev_mem hb hk hi h0
    obtain ⟨n, hn, hnk, hna, -⟩ := hr.next_mem hb hk hi h0'
    rw [← hpa, ← hna]
    exact hl.link_ne hp hn (by simp [hpk]) (by simp [hnk])

/-- Nothing but links of free blocks is written. -/
theorem removeBlock_frame {x : Nat}
    (hx : ∀ d ∈ items, d.kind = .free → x ≠ d.addr + 4 ∧ x ≠ d.addr + 8) :
    (removeBlock h i b.addr).mem x = h.mem x := by
  rw [removeBlock_writes hl hr hb hk hi]
  split
  · next hc =>
    obtain ⟨p, hp, hpk, hpa, -⟩ := hr.prev_mem hb hk hi hc.1
    exact absurd (hc.2.trans (by rw [hpa])) (hx p hp hpk).1
  · split
    · next hc =>
      obtain ⟨p, hp, hpk, hpa, -⟩ := hr.next_mem hb hk hi hc.1
      exact absurd (hc.2.trans (by rw [hpa])) (hx p hp hpk).2
    · rfl

theorem removeBlock_next {d : Item} (hd : d ∈ items) (hdk : d.kind = .free) :
    (removeBlock h i b.addr).next d.addr =
      if h.prev b.addr = d.addr then h.next b.addr else h.next d.addr := by
  have hd0 := (hl.bounds hd).1
  show (removeBlock h i b.addr).mem (d.addr + 4) = _
  rw [removeBlock_writes hl hr hb hk hi]
  by_cases hp : h.prev b.addr = d.addr
  · rw [if_pos (by omega), if_pos hp]
  · rw [if_neg (by omega), if_neg hp, if_neg]
    · rfl
    · rintro ⟨h0, heq⟩
      obtain ⟨n, hn, hnk, hna, -⟩ := hr.next_mem hb hk hi h0
      exact hl.link_ne hd hn (by simp [hdk]) (by simp [hnk]) (by rw [heq, hna])

theorem removeBlock_prev {d : Item} (hd : d ∈ items) (hdk : d.kind = .free) :
    (removeBlock h i b.addr).prev d.addr =
      if h.next b.addr = d.addr then h.prev b.addr else h.prev d.addr := by
  have hd0 := (hl.bounds hd).1
  show (removeBlock h i b.addr).mem (d.addr + 8) = _
  rw [removeBlock_writes hl hr hb hk hi, if_neg]
  · by_cases hn : h.next b.addr = d.addr
    · rw [if_pos (by omega), if_pos hn]
    · rw [if_neg (by omega), if_neg hn]
      rfl
  · rintro ⟨h0, heq⟩
    obtain ⟨p, hp, hpk, hpa, -⟩ := hr.prev_mem hb hk hi h0
    exact hl.link_ne hp hd (by simp [hpk]) (by simp [hdk]) (by rw [hpa, ← heq])

omit hr hk hi in
/-- The free blocks are those from before, without `b`. -/
theorem free_hold_iff {a j : Nat} : (∃ d ∈ { b with kind := .held } :: items.erase b,
    d.kind = .free ∧ d.addr = a ∧ getInsertionIndex (d.size - 8) = j) ↔
      a ≠ b.addr ∧ ∃ d ∈ items, d.kind = .free ∧ d.addr = a ∧
        getInsertionIndex (d.size - 8) = j := by
  constructor
  · rintro ⟨d, hd, hdk, rfl, hdj⟩
    rcases List.mem_cons.mp hd with rfl | hd
    · simp at hdk
    · obtain ⟨hne, hd⟩ := hl.nodup.mem_erase_iff.mp hd
      exact ⟨fun ha => hne (hl.eq_of_addr hd hb ha), d, hd, hdk, rfl, hdj⟩
  · rintro ⟨hne, d, hd, hdk, rfl, hdj⟩
    refine ⟨d, List.mem_cons_of_mem _ (hl.nodup.mem_erase_iff.mpr ⟨?_, hd⟩), hdk, rfl, hdj⟩
    rintro rfl
    exact hne rfl

/-- The block is taken out of its list. -/
theorem removeBlock_list : ∃ l, FreeList (removeBlock h i b.addr) i l ∧ ∀ a, a ∈ l ↔
    a ≠ b.addr ∧ ∃ d ∈ items, d.kind = .free ∧ d.addr = a ∧
      getInsertionIndex (d.size - 8) = i := by
  obtain ⟨l, hlist, hm⟩ := hr.lists i
  have hbl : b.addr ∈ l := (hm _).mpr ⟨b, hb, hk, rfl, hi⟩
  have hstart : ptr ((removeBlock h i b.addr).headBlock i) =
      if ptr (h.prev b.addr) = none then ptr (h.next b.addr) else ptr (h.headBlock i) := by
    rw [removeBlock_headBlock]
    by_cases h0 : h.prev b.addr = 0 <;> simp [h0]
  refine ⟨l.erase b.addr, ?_, fun a => by rw [hlist.nodup.mem_erase_iff, hm]⟩
  unfold FreeList
  rw [hstart]
  refine hlist.unlink hbl (fun p hp => ?_) (fun p hp => ?_) (fun p hpl hp hp' => ?_)
    fun p hpl hp hp' => ?_
  · obtain ⟨rfl, hne⟩ := ptr_eq_some.mp hp
    obtain ⟨d, hd, hdk, hda, -⟩ := hr.prev_mem hb hk hi hne
    rw [← hda, removeBlock_next hl hr hb hk hi hd hdk, if_pos hda.symm]
  · obtain ⟨rfl, hne⟩ := ptr_eq_some.mp hp
    obtain ⟨d, hd, hdk, hda, -⟩ := hr.next_mem hb hk hi hne
    rw [← hda, removeBlock_prev hl hr hb hk hi hd hdk, if_pos hda.symm]
  · obtain ⟨d, hd, hdk, rfl, -⟩ := (hm p).mp hpl
    have hd0 := (hl.bounds hd).1
    rw [removeBlock_next hl hr hb hk hi hd hdk,
      if_neg fun hc => hp' (ptr_eq_some.mpr ⟨hc, by omega⟩)]
  · obtain ⟨d, hd, hdk, rfl, -⟩ := (hm p).mp hpl
    have hd0 := (hl.bounds hd).1
    rw [removeBlock_prev hl hr hb hk hi hd hdk,
      if_neg fun hc => hp' (ptr_eq_some.mpr ⟨hc, by omega⟩)]

/-- The other lists stay. -/
theorem removeBlock_other {j : Nat} (hj : j ≠ i) {l : List Nat} (hlist : FreeList h j l)
    (hm : ∀ a, a ∈ l ↔
      ∃ d ∈ items, d.kind = .free ∧ d.addr = a ∧ getInsertionIndex (d.size - 8) = j) :
    FreeList (removeBlock h i b.addr) j l := by
  unfold FreeList
  rw [removeBlock_headBlock, if_neg fun hc => hj hc.1]
  refine DChain.congr (fun a ha => ?_) hlist
  obtain ⟨d, hd, hdk, rfl, hdj⟩ := (hm a).mp ha
  have hd0 := (hl.bounds hd).1
  have hother : ∀ e ∈ items, getInsertionIndex (e.size - 8) = i → e.addr ≠ d.addr := by
    intro e he hei hed
    obtain rfl := hl.eq_of_addr he hd hed
    exact hj (hdj.symm.trans hei)
  rw [removeBlock_next hl hr hb hk hi hd hdk, removeBlock_prev hl hr hb hk hi hd hdk, if_neg,
    if_neg]
  · exact ⟨rfl, rfl⟩
  · intro hc
    obtain ⟨e, he, -, hea, hei, -⟩ := hr.next_mem hb hk hi (by omega)
    exact hother e he hei (hea.trans hc)
  · intro hc
    obtain ⟨e, he, -, hea, hei, -⟩ := hr.prev_mem hb hk hi (by omega)
    exact hother e he hei (hea.trans hc)

omit hl in
/-- The bit of the list is cleared when the block was alone on it. -/
theorem removeBlock_bit (j : Nat) : (removeBlock h i b.addr).freeListBitmap.testBit j =
    decide ((removeBlock h i b.addr).headBlock j ≠ 0) := by
  obtain ⟨l, hlist, hm⟩ := hr.lists i
  have hfirst := hlist.prev_eq_none_iff ((hm _).mpr ⟨b, hb, hk, rfl, hi⟩)
  have h24 := getInsertionIndex_lt (b.size - 8)
  have hge : ¬ j < 32 → h.headBlock j = 0 := fun hj => hr.headBlock_eq_zero (by omega)
  rw [removeBlock_bitmap (by omega), removeBlock_headBlock, hr.bitmap]
  simp only [ptr_eq_none, ptr_eq_some] at hfirst
  by_cases hp : h.prev b.addr = 0
  · obtain ⟨hstart, hb0⟩ := hfirst.mp hp
    by_cases hn : h.next b.addr = 0
    · rw [if_pos ⟨hp, hn⟩]
      by_cases hj : j = i
      · simp [hj, hp, hn]
      · by_cases hj' : j < 32
        · simp [hj, hj']
        · simp [hj, hge hj']
    · rw [if_neg fun hc => hn hc.2]
      by_cases hj : j = i
      · simp [hj, hp, hn, hstart, hb0]
      · simp [hj]
  · rw [if_neg fun hc => hp hc.1, if_neg fun hc => hp hc.2]

end Unlink

theorem removeBlock_counts {i a : Nat} :
    (removeBlock h i a).outstandingAllocatedMemory = h.outstandingAllocatedMemory ∧
      (removeBlock h i a).returnsMemory = h.returnsMemory := by
  unfold removeBlock
  split
  · exact ⟨rfl, rfl⟩
  · split
    · exact ⟨rfl, rfl⟩
    · split <;> exact ⟨rfl, rfl⟩

theorem removeBlock_spec (hl : Layout chunks items) (hr : Rep h items) (hb : b ∈ items)
    (hk : b.kind = .free) {i : Nat} (hi : getInsertionIndex (b.size - 8) = i) :
    Unlinked h (removeBlock h i b.addr) items b := by
  refine ⟨⟨fun a => ?_, fun d hd => ?_, fun j => ?_, removeBlock_bit hr hb hk hi⟩,
    fun _ => removeBlock_frame hl hr hb hk hi, removeBlock_counts.1, removeBlock_counts.2⟩
  · rw [removeBlock_writes hl hr hb hk hi]
    split
    · exact hr.words _
    · split
      · exact hr.words _
      · exact hr.words _
  · have htag : ∀ e ∈ items, Tagged (removeBlock h i b.addr) e := by
      intro e he
      refine (hr.tagged e he).congr (removeBlock_frame hl hr hb hk hi fun f hf hfk => ?_)
        (removeBlock_frame hl hr hb hk hi fun f hf hfk => ?_)
      · exact (hl.tag_ne he hf (by simp [hfk])).1
      · exact (hl.tag_ne he hf (by simp [hfk])).2
    rcases List.mem_cons.mp hd with rfl | hd
    · have hbt := htag b hb
      exact ⟨hbt.header, hbt.trailer, fun hne => absurd rfl hne⟩
    · exact htag d (hl.nodup.mem_erase_iff.mp hd).2
  · by_cases hj : j = i
    · subst hj
      obtain ⟨l, hlist, hm⟩ := removeBlock_list hl hr hb hk hi
      exact ⟨l, hlist, fun a => (hm a).trans (free_hold_iff hl hb).symm⟩
    · obtain ⟨l, hlist, hm⟩ := hr.lists j
      refine ⟨l, removeBlock_other hl hr hb hk hi hj hlist hm, fun a => ?_⟩
      rw [free_hold_iff hl hb, hm, iff_and_self]
      rintro ⟨d, hd, hdk, rfl, hdj⟩ hdb
      exact hj (hdj.symm.trans (by rw [hl.eq_of_addr hd hb hdb, hi]))

/-! ## Putting a block on a list -/

/-- What `AddBlock` writes for a block that it puts on the list `i`. -/
theorem linkFree_mem {i b : Nat} (h1 : h.headBlock i ≠ 0 → b ≠ h.headBlock i + 8) (x : Nat) :
    (linkFree h i b).mem x =
      if x = b then h.mem b &&& 4294967294
      else if h.headBlock i ≠ 0 ∧ x = h.headBlock i + 8 then b
      else if x = b + 4 then h.headBlock i else if x = b + 8 then 0 else h.mem x := by
  have hn : ((h.setPrev b 0).setNext b (h.headBlock i)).next b = h.headBlock i := write_mem_self
  unfold linkFree
  simp only [hn]
  by_cases h0 : h.headBlock i = 0
  · rw [if_neg (by simp [h0])]
    simp only [markFree, Heap.setHead, Heap.setNext, Heap.setPrev, write_mem, h0]
    simp
  · rw [if_pos h0]
    simp only [markFree, Heap.setHead, Heap.setNext, Heap.setPrev, write_mem]
    have hb8 := h1 h0
    by_cases hx : x = b
    · simp [hx, hb8]
    · by_cases hx' : x = h.headBlock i + 8
      · simp [hx', h0, hb8.symm]
      · simp [hx, hx']

theorem linkFree_headBlock {i b : Nat} (j : Nat) :
    (linkFree h i b).headBlock j = if j = i then b else h.headBlock j := by
  have hhead : ∀ g : Heap, (g.setHead i b).headBlock j = if j = i then b else g.headBlock j :=
    fun g => Function.update_apply ..
  unfold linkFree markFree
  simp only [write_headBlock, hhead]
  split
  · rfl
  · split <;> rfl

theorem linkFree_bitmap {i b : Nat} (j : Nat) : (linkFree h i b).freeListBitmap.testBit j =
    (h.freeListBitmap.testBit j || decide (j = i)) := by
  have hbit : (linkFree h i b).freeListBitmap = h.freeListBitmap ||| listBit i := by
    unfold linkFree markFree
    simp only [write_bitmap, setHead_bitmap]
    split <;> rfl
  rw [hbit, Nat.testBit_or]
  unfold listBit
  rw [Nat.one_shiftLeft, Nat.testBit_two_pow]
  congr 1
  exact decide_eq_decide.mpr eq_comm

theorem linkFree_counts {i b : Nat} :
    (linkFree h i b).outstandingAllocatedMemory = h.outstandingAllocatedMemory ∧
      (linkFree h i b).returnsMemory = h.returnsMemory := by
  unfold linkFree
  simp only
  split <;> exact ⟨rfl, rfl⟩

/-- `h'` is `h` with `b` on the list of its size class. -/
structure Linked (h h' : Heap) (items : List Item) (b : Item) : Prop where
  rep : Rep h' ({ b with kind := .free } :: items.erase b)
  mem : ∀ x, (∀ d ∈ items, d.kind = .free → x ≠ d.addr + 8) → x ≠ b.addr → x ≠ b.addr + 4 →
    x ≠ b.addr + 8 → h'.mem x = h.mem x
  fence : isFencepost h' b.addr = isFencepost h b.addr
  outstanding : h'.outstandingAllocatedMemory = h.outstandingAllocatedMemory
  returnsMemory : h'.returnsMemory = h.returnsMemory

section Link

variable {i : Nat}

/-- The block in front of which `b` is put. -/
theorem Rep.head_ne (hr : Rep h items) (hk : b.kind = .held) (hne : h.headBlock i ≠ 0) :
    ∃ d ∈ items, d.kind = .free ∧ d.addr = h.headBlock i ∧ d ≠ b := by
  obtain ⟨d, hd, hdk, hda, -⟩ := hr.head_mem hne
  exact ⟨d, hd, hdk, hda, fun hdb => by simp [hdb, hk] at hdk⟩

variable (hl : Layout chunks items) (hr : Rep h items) (hb : b ∈ items) (hk : b.kind = .held)
include hl hr hb hk

theorem linkFree_writes (x : Nat) : (linkFree h i b.addr).mem x =
    if x = b.addr then h.mem b.addr &&& 4294967294
    else if h.headBlock i ≠ 0 ∧ x = h.headBlock i + 8 then b.addr
    else if x = b.addr + 4 then h.headBlock i else if x = b.addr + 8 then 0 else h.mem x := by
  refine linkFree_mem (fun h0 => ?_) x
  obtain ⟨d, hd, hdk, hda, -⟩ := hr.head_ne hk h0
  rw [← hda]
  exact (hl.tag_ne hb hd (by simp [hdk])).1.2

/-- Nothing is written but the header and the links of the block, and one link back. -/
theorem linkFree_frame {x : Nat} (hx : ∀ d ∈ items, d.kind = .free → x ≠ d.addr + 8)
    (h1 : x ≠ b.addr) (h2 : x ≠ b.addr + 4) (h3 : x ≠ b.addr + 8) :
    (linkFree h i b.addr).mem x = h.mem x := by
  rw [linkFree_writes hl hr hb hk, if_neg h1, if_neg, if_neg h2, if_neg h3]
  rintro ⟨h0, rfl⟩
  obtain ⟨d, hd, hdk, hda, -⟩ := hr.head_ne hk h0
  exact hx d hd hdk (by rw [hda])

/-- The words of the other items that are tags or links forward stay. -/
theorem linkFree_inside {d : Item} (hd : d ∈ items) (hdb : d ≠ b) {x : Nat}
    (hin : Inside Item.span d x) (hx : ∀ e ∈ items, e.kind = .free → x ≠ e.addr + 8) :
    (linkFree h i b.addr).mem x = h.mem x := by
  have hsize := (hl.size b hb).2 (by simp [hk])
  have := hl.disjoint hd hb hdb
  rw [inside_iff] at hin
  exact linkFree_frame hl hr hb hk hx (by omega) (by omega) (by omega)

theorem linkFree_words (a : Nat) : (linkFree h i b.addr).mem a < 4294967296 := by
  have hwords := hr.words
  have hsize := (hl.size b hb).2 (by simp [hk])
  rw [linkFree_writes hl hr hb hk]
  split
  · exact lt_of_le_of_lt Nat.and_le_left (hwords _)
  · split
    · have := (hl.bounds hb).2
      omega
    · split
      · by_cases h0 : h.headBlock i = 0
        · omega
        · obtain ⟨d, hd, -, hda, -⟩ := hr.head_ne hk h0
          have := (hl.bounds hd).2
          have := hl.size_pos hd
          omega
      · split
        · omega
        · exact hwords _

theorem linkFree_header : (linkFree h i b.addr).mem b.addr = h.mem b.addr &&& 4294967294 := by
  rw [linkFree_writes hl hr hb hk, if_pos rfl]

/-- The block is marked free, and the tags of the others stay. -/
theorem linkFree_tagged {d : Item} (hd : d ∈ { b with kind := .free } :: items.erase b) :
    Tagged (linkFree h i b.addr) d := by
  have hbk : b.kind ≠ .fence := by simp [hk]
  have hsize := (hl.size b hb).2 hbk
  rcases List.mem_cons.mp hd with rfl | hd
  · have ht := hr.tagged b hb
    refine ⟨?_, ?_, fun _ => ?_⟩
    · show sizeBits ((linkFree h i b.addr).mem b.addr) = b.size
      rw [linkFree_header hl hr hb hk, sizeBits_and_freeMask]
      exact ht.header
    · have htag := (hl.tag_ne hb hb hbk).2
      show (linkFree h i b.addr).mem (b.addr + b.size - 4) = b.size
      rw [linkFree_frame hl hr hb hk (fun d hd hdk => (hl.tag_ne hb hd (by simp [hdk])).2.2)
        (by omega) htag.1 htag.2]
      exact ht.trailer
    · show allocatedBit ((linkFree h i b.addr).mem b.addr) = _
      rw [linkFree_header hl hr hb hk, (flags_and_freeMask _).1]
      simp
  · obtain ⟨hdb, hd⟩ := hl.nodup.mem_erase_iff.mp hd
    have := hl.size_pos hd
    refine (hr.tagged d hd).congr (linkFree_inside hl hr hb hk hd hdb ?_ fun e he hek => ?_)
      (linkFree_inside hl hr hb hk hd hdb ?_ fun e he hek => ?_)
    · rw [inside_iff]
      omega
    · exact (hl.tag_ne hd he (by simp [hek])).1.2
    · rw [inside_iff]
      omega
    · exact (hl.tag_ne hd he (by simp [hek])).2.2

omit hl hr hb in
theorem ne_of_free {d : Item} (hdk : d.kind = .free) : d ≠ b := fun hdb => by simp [hdb, hk] at hdk

theorem linkFree_next {d : Item} (hd : d ∈ items) (hdk : d.kind = .free) :
    (linkFree h i b.addr).next d.addr = h.next d.addr := by
  have hd16 := (hl.size d hd).2 (by simp [hdk])
  refine linkFree_inside hl hr hb hk hd (ne_of_free hk hdk) (by rw [inside_iff]; omega)
    fun e he hek => ?_
  exact hl.link_ne hd he (by simp [hdk]) (by simp [hek])

theorem linkFree_prev {d : Item} (hd : d ∈ items) (hdk : d.kind = .free)
    (hne : d.addr ≠ h.headBlock i) : (linkFree h i b.addr).prev d.addr = h.prev d.addr := by
  have hsize := (hl.size b hb).2 (by simp [hk])
  have hd16 := (hl.size d hd).2 (by simp [hdk])
  have hdisj := hl.disjoint hd hb (ne_of_free hk hdk)
  show (linkFree h i b.addr).mem (d.addr + 8) = h.mem (d.addr + 8)
  rw [linkFree_writes hl hr hb hk, if_neg (by omega), if_neg (by omega), if_neg (by omega),
    if_neg (by omega)]

omit hr hb in
/-- The free blocks are those from before, and `b`. -/
theorem free_release_iff {a j : Nat} : (∃ d ∈ { b with kind := .free } :: items.erase b,
    d.kind = .free ∧ d.addr = a ∧ getInsertionIndex (d.size - 8) = j) ↔
      a = b.addr ∧ j = getInsertionIndex (b.size - 8) ∨
        ∃ d ∈ items, d.kind = .free ∧ d.addr = a ∧ getInsertionIndex (d.size - 8) = j := by
  have hrest : ∀ d, d ∈ items.erase b ↔ d ≠ b ∧ d ∈ items := fun d => hl.nodup.mem_erase_iff
  constructor
  · rintro ⟨d, hd, hdk, rfl, hdj⟩
    rcases List.mem_cons.mp hd with rfl | hd
    · exact Or.inl ⟨rfl, hdj.symm⟩
    · exact Or.inr ⟨d, ((hrest d).mp hd).2, hdk, rfl, hdj⟩
  · rintro (⟨rfl, rfl⟩ | ⟨d, hd, hdk, rfl, hdj⟩)
    · exact ⟨_, List.mem_cons_self, rfl, rfl, rfl⟩
    · exact ⟨d, List.mem_cons_of_mem _ ((hrest d).mpr ⟨ne_of_free hk hdk, hd⟩), hdk, rfl, hdj⟩

/-- The block is the first one of its list. -/
theorem linkFree_list {l : List Nat} (hlist : FreeList h i l)
    (hm : ∀ a, a ∈ l ↔
      ∃ d ∈ items, d.kind = .free ∧ d.addr = a ∧ getInsertionIndex (d.size - 8) = i) :
    FreeList (linkFree h i b.addr) i (b.addr :: l) := by
  have hbk : b.kind ≠ .fence := by simp [hk]
  have hsize := (hl.size b hb).2 hbk
  have hpos := (hl.bounds hb).1
  have hwrites := linkFree_writes (i := i) hl hr hb hk
  have hnext : ∀ a ∈ l, (linkFree h i b.addr).next a = h.next a := by
    intro a ha
    obtain ⟨d, hd, hdk, rfl, -⟩ := (hm a).mp ha
    exact linkFree_next hl hr hb hk hd hdk
  unfold FreeList
  rw [linkFree_headBlock, if_pos rfl, show ptr b.addr = some b.addr by simp; omega]
  refine hlist.link ?_ ?_ (fun a ha => ?_) (fun a ha => by rw [hnext a ha]) fun a ha hne => ?_
  · show ptr ((linkFree h i b.addr).mem (b.addr + 4)) = _
    rw [hwrites, if_neg (by omega), if_neg, if_pos rfl]
    rintro ⟨h0, heq⟩
    obtain ⟨d, hd, hdk, hda, -⟩ := hr.head_ne hk h0
    exact hl.link_ne hb hd hbk (by simp [hdk]) (by rw [heq, hda])
  · show ptr ((linkFree h i b.addr).mem (b.addr + 8)) = _
    rw [hwrites, if_neg (by omega), if_neg, if_neg (by omega), if_pos rfl]
    · rfl
    · rintro ⟨h0, heq⟩
      obtain ⟨d, hd, -, hda, hdb⟩ := hr.head_ne hk h0
      exact hdb (hl.eq_of_addr hd hb (by omega))
  · obtain ⟨rfl, h0⟩ := ptr_eq_some.mp ha
    obtain ⟨d, hd, hdk, hda, -⟩ := hr.head_ne hk h0
    have htag := (hl.tag_ne hb hd (by simp [hdk])).1.2
    show ptr ((linkFree h i b.addr).mem (h.headBlock i + 8)) = _
    rw [hwrites, if_neg (by omega), if_pos ⟨h0, rfl⟩]
    simp
    omega
  · obtain ⟨d, hd, hdk, rfl, -⟩ := (hm _).mp ha
    have := (hl.bounds hd).1
    rw [linkFree_prev hl hr hb hk hd hdk fun heq => hne (ptr_eq_some.mpr ⟨heq.symm, by omega⟩)]

/-- The other lists stay. -/
theorem linkFree_other {j : Nat} (hj : j ≠ i) {l : List Nat} (hlist : FreeList h j l)
    (hm : ∀ a, a ∈ l ↔
      ∃ d ∈ items, d.kind = .free ∧ d.addr = a ∧ getInsertionIndex (d.size - 8) = j) :
    FreeList (linkFree h i b.addr) j l := by
  unfold FreeList
  rw [linkFree_headBlock, if_neg hj]
  refine DChain.congr (fun a ha => ?_) hlist
  obtain ⟨d, hd, hdk, rfl, hdj⟩ := (hm a).mp ha
  rw [linkFree_next hl hr hb hk hd hdk, linkFree_prev hl hr hb hk hd hdk]
  · exact ⟨rfl, rfl⟩
  · intro hda
    have := (hl.bounds hd).1
    obtain ⟨e, he, -, hea, hei⟩ := hr.head_mem (i := i) (by omega)
    obtain rfl := hl.eq_of_addr hd he (by omega)
    exact hj (hdj.symm.trans hei)

omit hk in
theorem linkFree_bit (j : Nat) : (linkFree h i b.addr).freeListBitmap.testBit j =
    decide ((linkFree h i b.addr).headBlock j ≠ 0) := by
  have hpos := (hl.bounds hb).1
  rw [linkFree_bitmap, linkFree_headBlock, hr.bitmap]
  by_cases hj : j = i
  · simp [hj]
    omega
  · simp [hj]

end Link

theorem linkFree_spec (hl : Layout chunks items) (hr : Rep h items) (hb : b ∈ items)
    (hk : b.kind = .held) :
    Linked h (linkFree h (getInsertionIndex (b.size - 8)) b.addr) items b := by
  refine ⟨⟨linkFree_words hl hr hb hk, fun d => linkFree_tagged hl hr hb hk, fun j => ?_,
    linkFree_bit hl hr hb⟩, fun _ => linkFree_frame hl hr hb hk, ?_, linkFree_counts.1,
    linkFree_counts.2⟩
  · obtain ⟨l, hlist, hm⟩ := hr.lists j
    by_cases hj : j = getInsertionIndex (b.size - 8)
    · subst hj
      refine ⟨b.addr :: l, linkFree_list hl hr hb hk hlist hm, fun a => ?_⟩
      rw [free_release_iff hl hk, List.mem_cons, hm]
      simp
    · refine ⟨l, linkFree_other hl hr hb hk hj hlist hm, fun a => ?_⟩
      rw [free_release_iff hl hk, hm]
      simp [hj]
  · unfold isFencepost
    rw [linkFree_header hl hr hb hk, (flags_and_freeMask _).2]

end Rep

end Nolrem.Mem
