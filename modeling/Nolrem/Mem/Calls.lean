import Mathlib.Data.List.Nodup
import Nolrem.Mem.FindBlock

/-!
# Calls of the heap

What `AllocHeapEx`, `FreeHeapEx` and `ReallocHeapEx` do to a heap between two calls, when no
block is held.
-/

namespace Nolrem.Mem

open Nolrem.Lib

variable {h h' : Heap} {chunks : List Chunk} {items items' : List Item} {live : List Nat}
  {b u : Item}

/-- The pointer to the payload of a block. -/
def payloadOf (b : Item) : Nat := b.addr + 4

/--
The heap between two calls: the chunks are cut up into blocks as memory says, the blocks in use
are those that `live` points to, and their sizes are counted.
-/
structure Ready (h : Heap) (chunks : List Chunk) (live : List Nat) (items : List Item) : Prop where
  layout : Layout chunks items
  rep : Rep h items
  settled : Settled items
  live : live.Perm ((usedOf items).map payloadOf)
  outstanding : h.outstandingAllocatedMemory = usedSize items

/-! ## The count of the bytes in use -/

theorem Layout.usedSize_lt (hl : Layout chunks items) : usedSize items < 4294967296 := by
  have hpart : (usedOf items).Pairwise fun b d =>
      List.Disjoint (List.range' b.addr b.size) (List.range' d.addr d.size) := by
    refine List.Pairwise.imp_of_mem (fun {b d} hb hd hne => ?_)
      (List.Nodup.filter _ hl.nodup)
    have hdisj := hl.disjoint (mem_usedOf.mp hb).1 (mem_usedOf.mp hd).1 hne
    intro x hx hx'
    rw [List.mem_range'_1] at hx hx'
    omega
  have hnodup : ((usedOf items).flatMap fun b => List.range' b.addr b.size).Nodup :=
    List.nodup_flatMap.mpr ⟨fun b _ => List.nodup_range', hpart⟩
  have hsub : ((usedOf items).flatMap fun b => List.range' b.addr b.size) ⊆
      List.range' 1 4294967295 := by
    intro x hx
    obtain ⟨b, hb, hxb⟩ := List.mem_flatMap.mp hx
    have := hl.bounds (mem_usedOf.mp hb).1
    rw [List.mem_range'_1] at hxb ⊢
    omega
  have hle := (List.subperm_of_subset hnodup hsub).length_le
  rw [List.length_flatMap, List.length_range'] at hle
  simp only [List.length_range'] at hle
  exact lt_of_le_of_lt hle (by decide)

theorem usedSize_of_perm (h : (usedOf items').Perm (u :: usedOf items)) :
    usedSize items' = u.size + usedSize items := by
  unfold usedSize
  rw [(h.map Item.size).sum_nat]
  simp

/-! ## `AllocHeapEx` -/

section Alloc

variable {σ : Type} {getMemory : GetMemory σ} {given : σ → List Chunk} {e : σ} {fuel : Nat}

/-- `ptr` points to a new block with room for `size` bytes, and no block in use was written to. -/
structure Granted (h : Heap) (items : List Item) (chunks' : List Chunk) (h' : Heap)
    (items' : List Item) (live : List Nat) (size ptr : Nat) : Prop where
  ready : Ready h' chunks' (ptr :: live) items'
  block : ∃ u ∈ items', u.kind = .used ∧ payloadOf u = ptr ∧ size + 8 ≤ u.size ∧
    u ∉ usedOf items
  kept : ∀ u ∈ usedOf items, u ∈ usedOf items' ∧
    ∀ x, Inside Item.span u x → h'.mem x = h.mem x

/-- What `AllocHeapEx` leaves. -/
def Allocated (h : Heap) (items : List Item) (before after : List Chunk) (h' : Heap)
    (items' : List Item) (live : List Nat) (size ptr : Nat) : Prop :=
  ptr = 0 ∧ h' = h ∧ items' = items ∧ after = before ∨
    ptr ≠ 0 ∧ Granted h items after h' items' live size ptr

theorem allocHeapEx_spec (hg : GivesFresh getMemory given) (hr : Ready h (given e) live items)
    {size : Nat} (hle : size ≤ 4294967264) (hfuel : 4294967296 < fuel) :
    ∃ e' h' ptr items', allocHeapEx getMemory fuel e h size = .ok (e', h', ptr) ∧
      Allocated h items (given e) (given e') h' items' live size ptr ∧
      (FenceBits h items → (size ≠ 0 → CleanTake getMemory fuel e h (roundUpSize size)) →
        FenceBits h' items') := by
  unfold allocHeapEx
  by_cases h0 : size = 0
  · exact ⟨e, h, 0, items, by rw [if_pos h0], Or.inl ⟨rfl, rfl, rfl, rfl⟩, fun hf _ => hf⟩
  obtain ⟨h1, h2, h3, h4⟩ := roundUpSize_spec hle
  obtain ⟨e', h', a, items', hfind, hfound, hfe⟩ := findBlock_spec hg hr.layout hr.rep hr.settled
    h3 h2 h4 hfuel
  rw [if_neg h0]
  simp only [bind, Except.bind, hfind]
  rcases hfound with ⟨rfl, rfl, rfl, hgiven⟩ | ⟨ha, htaken⟩
  · exact ⟨e', h', 0, items', by rw [if_pos rfl], Or.inl ⟨rfl, rfl, rfl, hgiven⟩,
      fun hf hc => hfe hf (hc h0)⟩
  · obtain ⟨u, huk, rfl, hus, hperm⟩ := htaken.taken
    have hu : u ∈ items' := (mem_usedOf.mp (hperm.mem_iff.mpr List.mem_cons_self)).1
    have hcount := usedSize_of_perm hperm
    have hlt := htaken.layout.usedSize_lt
    refine ⟨e', h'.countTaken u.addr, u.addr + 4, items', by rw [if_neg ha],
      Or.inr ⟨by omega, ⟨⟨htaken.layout, ?_, htaken.settled, ?_, ?_⟩, ⟨u, hu, huk, rfl, by omega,
        (List.nodup_cons.mp (hperm.nodup_iff.mp (htaken.layout.nodup.filter _))).1⟩,
        fun d hd => ⟨hperm.mem_iff.mpr (List.mem_cons_of_mem _ hd), htaken.kept d hd⟩⟩⟩,
      fun hf hc => hfe hf (hc h0)⟩
    · exact ⟨htaken.rep.words, fun d hd => ⟨(htaken.rep.tagged d hd).header,
        (htaken.rep.tagged d hd).trailer, (htaken.rep.tagged d hd).allocated⟩,
        htaken.rep.lists, htaken.rep.bitmap⟩
    · refine ((hr.live.cons (payloadOf u)).trans ?_)
      exact (hperm.map payloadOf).symm
    · show wadd h'.outstandingAllocatedMemory (getSize h' u.addr) = _
      rw [(htaken.rep.tagged u hu).header, htaken.outstanding, hr.outstanding,
        wadd_eq (by omega)]
      omega

end Alloc

/-! ## `FreeHeapEx` -/

/-- The block that a live pointer points to. -/
theorem Ready.block_of_live (hr : Ready h chunks live items) {ptr : Nat} (hp : ptr ∈ live) :
    ∃ u ∈ items, u.kind = .used ∧ u.addr + 4 = ptr ∧ wsub ptr 4 = u.addr := by
  obtain ⟨u, hu, rfl⟩ := List.mem_map.mp (hr.live.mem_iff.mp hp)
  obtain ⟨hui, huk⟩ := mem_usedOf.mp hu
  have h1 := hr.layout.bounds hui
  have h2 := hr.layout.size_pos hui
  unfold payloadOf
  exact ⟨u, hui, huk, rfl, by rw [wsub_eq (by omega) (by omega)]; omega⟩

/-- Words of a payload are written: the heap stays as it is. -/
theorem Rep.of_payload (hl : Layout chunks items) (hr : Rep h items) (hu : u ∈ items)
    (huk : u.kind = .used) (hmem : ∀ x, x < u.addr + 4 ∨ u.addr + u.size - 4 ≤ x →
      h'.mem x = h.mem x) (hwords : ∀ a, h'.mem a < 4294967296)
    (hhead : h'.headBlock = h.headBlock) (hbitmap : h'.freeListBitmap = h.freeListBitmap) :
    Rep h' items := by
  have hus := (hl.size u hu).2 (by simp [huk])
  have hp : items.Perm ([u] ++ items.erase u) := List.perm_cons_erase hu
  have hother : ∀ d ∈ items, d ≠ u → ∀ x, Inside Item.span d x → h'.mem x = h.mem x := by
    intro d hd hne x hx
    have := hl.disjoint hd hu hne
    rw [inside_iff] at hx
    exact hmem x (by omega)
  have hrep : Rep h' ([u] ++ items.erase u) := by
    refine hr.retag hl hp (by simp [huk]) (fun d hd => ?_) (fun d hd x hx => ?_) hwords hhead hbitmap
    · obtain rfl := List.mem_singleton.mp hd
      exact ⟨by simp [huk], (hr.tagged d hu).congr (hmem _ (by omega)) (hmem _ (by omega))⟩
    · obtain ⟨hne, hd⟩ := hl.nodup.mem_erase_iff.mp hd
      exact hother d hd hne x hx
  refine ⟨hrep.words, fun d hd => hrep.tagged d (hp.mem_iff.mp hd), fun i => ?_, hrep.bitmap⟩
  obtain ⟨l, hlist, hm⟩ := hrep.lists i
  refine ⟨l, hlist, fun a => (hm a).trans ?_⟩
  simp only [hp.mem_iff]

/-- What `FreeHeapEx` leaves. -/
structure Freed (h : Heap) (items : List Item) (chunks : List Chunk) (h' : Heap)
    (items' : List Item) (live : List Nat) (ptr : Nat) : Prop where
  ready : Ready h' chunks (live.erase ptr) items'
  kept : ∀ u ∈ usedOf items, payloadOf u ≠ ptr → u ∈ usedOf items' ∧
    ∀ x, Inside Item.span u x → h'.mem x = h.mem x
  fence : FenceBits h items → FenceBits h' items'

theorem freeHeapEx_spec (hr : Ready h chunks live items) {ptr fuel : Nat} (hp : ptr ∈ live)
    (hfuel : 2 ≤ fuel) : ∃ h' items', freeHeapEx fuel h ptr = .ok h' ∧
      Freed h items chunks h' items' live ptr := by
  obtain ⟨u, hu, huk, rfl, hsub⟩ := hr.block_of_live hp
  have hl := hr.layout
  have hus := (hl.size u hu).2 (by simp [huk])
  have hub := hl.bounds hu
  have hperm : items.Perm ([u] ++ items.erase u) := List.perm_cons_erase hu
  set h1 := ((h.setPrev u.addr 0).setNext u.addr 0).countFreed u.addr with hh1
  have hmem : ∀ x, h1.mem x = if x = u.addr + 4 then 0 else if x = u.addr + 8 then 0
      else h.mem x := by
    intro x
    show ((h.write (u.addr + 8) 0).write (u.addr + 4) 0).mem x = _
    rw [write_mem, write_mem]
  have hhead : h1.mem u.addr = h.mem u.addr := by
    rw [hmem, if_neg (by omega), if_neg (by omega)]
  have hother : ∀ d ∈ items, d ≠ u → ∀ x, Inside Item.span d x → h1.mem x = h.mem x := by
    intro d hd hne x hx
    have := hl.disjoint hd hu hne
    rw [inside_iff] at hx
    rw [hmem, if_neg (by omega), if_neg (by omega)]
  have hrest : ∀ d ∈ items.erase u, d ≠ u ∧ d ∈ items := fun d hd =>
    hl.nodup.mem_erase_iff.mp hd
  -- the block is held while it is put back
  have hl1 : Layout chunks ([{ u with kind := .held }] ++ items.erase u) := by
    refine hl.replace hperm (fun x => rfl) (by simp [huk]) ?_ (by simp)
    simp only [List.mem_singleton, forall_eq]
    exact ⟨by simp, hus, (hl.size u hu).1⟩
  have hr1 : Rep h1 ([{ u with kind := .held }] ++ items.erase u) := by
    refine hr.rep.retag hl hperm (by simp [huk]) (fun d hd => ?_)
      (fun d hd => hother d (hrest d hd).2 (hrest d hd).1) (fun x => ?_) rfl rfl
    · obtain rfl := List.mem_singleton.mp hd
      have ht := hr.rep.tagged u hu
      refine ⟨by simp, ?_, ?_, fun hne => absurd rfl hne⟩
      · unfold getSize
        rw [hhead]
        exact ht.header
      · show h1.mem (u.addr + u.size - 4) = u.size
        rw [hmem, if_neg (by omega), if_neg (by omega)]
        exact ht.trailer
    · have := hr.rep.words x
      rw [hmem]
      split_ifs <;> omega
  obtain ⟨h', r, items', hadd, hret⟩ := addBlock_spec hl1 hr1 (b := { u with kind := .held })
    (by simp) rfl (fun d hd hdk => by
      rcases List.mem_cons.mp hd with rfl | hd
      · rfl
      · exact absurd hdk (hr.settled d (hrest d hd).2)) hfuel
  have hused : (usedOf items).Perm (u :: usedOf items') := by
    have h2 : usedOf ([{ u with kind := .held }] ++ items.erase u) = usedOf (items.erase u) :=
      List.filter_cons_of_neg (by simp)
    have h3 : usedOf ([u] ++ items.erase u) = u :: usedOf (items.erase u) :=
      List.filter_cons_of_pos (by simp [huk])
    have h4 := hret.reshaped.used
    rw [h2] at h4
    refine (usedOf_perm hperm).trans ?_
    rw [h3]
    exact h4.symm.cons u
  have hsum := usedSize_of_perm hused
  have hlt := hl.usedSize_lt
  refine ⟨h', items', ?_, ⟨hret.reshaped.layout, hret.reshaped.rep, hret.noHeld, ?_, ?_⟩,
    fun d hd hne => ?_, fun hf => hret.fence ?_⟩
  · unfold freeHeapEx
    rw [if_neg (by omega)]
    simp only [hsub]
    show (addBlock fuel h1 u.addr).bind _ = _
    simp only at hadd
    rw [hadd]
    rfl
  · have h2 := (hr.live.trans (hused.map payloadOf)).erase (payloadOf u)
    rwa [List.map_cons, List.erase_cons_head] at h2
  · rw [hret.reshaped.outstanding]
    show wsub h.outstandingAllocatedMemory (getSize ((h.setPrev u.addr 0).setNext u.addr 0) u.addr)
      = _
    have hsize : getSize ((h.setPrev u.addr 0).setNext u.addr 0) u.addr = u.size := by
      have : ((h.setPrev u.addr 0).setNext u.addr 0).mem u.addr = h.mem u.addr := hhead
      unfold getSize
      rw [this]
      exact (hr.rep.tagged u hu).header
    rw [hsize, hr.outstanding, wsub_eq (by omega) (by omega)]
    omega
  · have hdu : d ≠ u := fun hdu => hne (hdu ▸ rfl)
    obtain ⟨hdi, hdk⟩ := mem_usedOf.mp hd
    refine ⟨((List.mem_cons.mp (hused.mem_iff.mp hd)).resolve_left hdu), fun x hx => ?_⟩
    rw [hret.reshaped.frame x (hl1.not_loose (List.mem_append_right _
      (hl.nodup.mem_erase_iff.mpr ⟨hdu, hdi⟩)) (Or.inr hdk) hx)]
    exact hother d hdi hdu x hx
  · refine hf.replace [{ u with kind := .held }] hperm (fun d hd => ?_) fun d hd => ?_
    · obtain rfl := List.mem_singleton.mp hd
      unfold isFencepost
      rw [hhead]
      exact (hf u hu).trans (by simp [huk])
    · have := hl.size_pos (hrest d hd).2
      exact hother d (hrest d hd).2 (hrest d hd).1 _ (by rw [inside_iff]; omega)

/-! ## `ReallocHeapEx` -/

/-- `memcpy` between two ranges that do not overlap. -/
theorem copyWords_mem : ∀ {n : Nat} {h : Heap} {dst src : Nat},
    dst + 4 * n ≤ src ∨ src + 4 * n ≤ dst → ∀ x, (copyWords h dst src n).mem x =
      if dst ≤ x ∧ x < dst + 4 * n ∧ (x - dst) % 4 = 0 then h.mem (src + (x - dst)) else h.mem x
  | 0, h, dst, src, _, x => by
    rw [if_neg (by omega)]
    rfl
  | n + 1, h, dst, src, hd, x => by
    rw [copyWords, copyWords_mem (by omega), write_mem, write_mem]
    by_cases hx : x = dst
    · subst hx
      rw [if_neg (by omega), if_pos rfl, if_pos (by omega), Nat.sub_self, Nat.add_zero]
    by_cases hin : dst ≤ x ∧ x < dst + 4 * (n + 1) ∧ (x - dst) % 4 = 0
    · rw [if_pos (by omega), if_neg (by omega), if_pos hin]
      congr 1
      omega
    · rw [if_neg (by omega), if_neg hx, if_neg hin]

theorem copyWords_fields : ∀ (n : Nat) (h : Heap) (dst src : Nat),
    (copyWords h dst src n).headBlock = h.headBlock ∧
      (copyWords h dst src n).freeListBitmap = h.freeListBitmap ∧
      (copyWords h dst src n).outstandingAllocatedMemory = h.outstandingAllocatedMemory
  | 0, _, _, _ => ⟨rfl, rfl, rfl⟩
  | n + 1, h, dst, src => copyWords_fields n (h.write dst (h.mem src)) (dst + 4) (src + 4)

/-- Words of the payload of a block in use are written. -/
theorem Ready.of_payload (hr : Ready h chunks live items) (hu : u ∈ items) (huk : u.kind = .used)
    (hmem : ∀ x, x < u.addr + 4 ∨ u.addr + u.size - 4 ≤ x → h'.mem x = h.mem x)
    (hwords : ∀ a, h'.mem a < 4294967296) (hhead : h'.headBlock = h.headBlock)
    (hbitmap : h'.freeListBitmap = h.freeListBitmap)
    (hout : h'.outstandingAllocatedMemory = h.outstandingAllocatedMemory) :
    Ready h' chunks live items ∧ (FenceBits h items → FenceBits h' items) := by
  refine ⟨⟨hr.layout, hr.rep.of_payload hr.layout hu huk hmem hwords hhead hbitmap, hr.settled,
    hr.live, hout.trans hr.outstanding⟩, fun hf d hd => ?_⟩
  have h1 := (hr.layout.size u hu).2 (by simp [huk])
  have h2 := hr.layout.size_pos hd
  unfold isFencepost
  rw [hmem]
  · exact hf d hd
  · by_cases hdu : d = u
    · subst hdu
      omega
    · have := hr.layout.disjoint hd hu hdu
      omega

section Realloc

variable {σ : Type} {getMemory : GetMemory σ} {given : σ → List Chunk} {e : σ} {fuel : Nat}

/-- A new block was taken, the payload was copied, and the old block was put back. -/
structure Moved (h : Heap) (items : List Item) (chunks' : List Chunk) (h' : Heap)
    (items' : List Item) (live : List Nat) (old : Item) (size ptr : Nat) : Prop where
  ready : Ready h' chunks' (ptr :: live.erase (payloadOf old)) items'
  block : ∃ u ∈ items', u.kind = .used ∧ payloadOf u = ptr ∧ size + 8 ≤ u.size
  larger : old.size - 8 < size
  copied : ∀ x < old.size - 8, x % 4 = 0 → h'.mem (ptr + x) = h.mem (payloadOf old + x)
  kept : ∀ u ∈ usedOf items, u ≠ old → u ∈ usedOf items' ∧
    ∀ x, Inside Item.span u x → h'.mem x = h.mem x

/-- What `ReallocHeapEx` leaves for the block `old`: nothing has changed, or the block moved. -/
def Resized (h : Heap) (items : List Item) (before after : List Chunk) (h' : Heap)
    (items' : List Item) (live : List Nat) (old : Item) (size ptr : Nat) : Prop :=
  (ptr = 0 ∨ ptr = payloadOf old ∧ size ≤ old.size - 8) ∧ h' = h ∧ items' = items ∧
      after = before ∨
    ptr ≠ 0 ∧ Moved h items after h' items' live old size ptr

theorem reallocHeapEx_spec (hg : GivesFresh getMemory given) (hr : Ready h (given e) live items)
    (hu : u ∈ items) (huk : u.kind = .used) {size : Nat} (hle : size ≤ 4294967264)
    (hfuel : 4294967296 < fuel) :
    ∃ e' h' ptr items', reallocHeapEx getMemory fuel e h (payloadOf u) size = .ok (e', h', ptr) ∧
      Resized h items (given e) (given e') h' items' live u size ptr ∧
      (FenceBits h items →
        (u.size - 8 < size → CleanTake getMemory fuel e h (roundUpSize size)) →
        FenceBits h' items') := by
  have hus := hr.layout.size u hu
  have hu16 := hus.2 (by simp [huk])
  have hub := hr.layout.bounds hu
  have hold : wsub (getSize h (wsub (payloadOf u) 4)) metadataTotal = u.size - 8 := by
    have hsub : wsub (payloadOf u) 4 = u.addr := by
      unfold payloadOf
      rw [wsub_eq (by omega) (by omega), Nat.add_sub_cancel]
    rw [hsub, (hr.rep.tagged u hu).header]
    exact wsub_eq (by unfold metadataTotal; omega) (by omega)
  have hne : payloadOf u ≠ 0 := by
    unfold payloadOf
    omega
  unfold reallocHeapEx
  rw [if_neg hne]
  simp only [hold]
  by_cases hfit : size ≤ u.size - 8
  · exact ⟨e, h, payloadOf u, items, by rw [if_pos hfit],
      Or.inl ⟨Or.inr ⟨rfl, hfit⟩, rfl, rfl, rfl⟩, fun hf _ => hf⟩
  obtain ⟨e', h1, ptr, items1, halloc, hres, hfe⟩ := allocHeapEx_spec hg hr hle hfuel
  rw [if_neg hfit]
  simp only [bind, Except.bind, halloc]
  rcases hres with ⟨rfl, rfl, rfl, hgiven⟩ | ⟨h0, hgr⟩
  · exact ⟨e', h1, 0, items1, by rw [if_pos rfl], Or.inl ⟨Or.inl rfl, rfl, rfl, hgiven⟩,
      fun hf hc => hfe hf fun _ => hc (by omega)⟩
  obtain ⟨d, hd, hdk, rfl, hds, hnew⟩ := hgr.block
  have huu : u ∈ usedOf items := mem_usedOf.mpr ⟨hu, huk⟩
  obtain ⟨hu1, hkept⟩ := hgr.kept u huu
  have hui := (mem_usedOf.mp hu1).1
  have hdb := hgr.ready.layout.bounds hd
  -- the new block is larger, so it is another one
  have hdu : d ≠ u := by
    rintro rfl
    omega
  have hapart := hgr.ready.layout.disjoint hd hui hdu
  set h2 := copyWords h1 (payloadOf d) (payloadOf u) ((u.size - 8) / 4) with hh2
  have hmem : ∀ x, h2.mem x = if payloadOf d ≤ x ∧ x < payloadOf d + (u.size - 8) ∧
      (x - payloadOf d) % 4 = 0 then h1.mem (payloadOf u + (x - payloadOf d)) else h1.mem x := by
    intro x
    rw [hh2, copyWords_mem (by unfold payloadOf; omega),
      show 4 * ((u.size - 8) / 4) = u.size - 8 by omega]
  obtain ⟨hhead, hbitmap, hout⟩ := copyWords_fields ((u.size - 8) / 4) h1 (payloadOf d) (payloadOf u)
  obtain ⟨hr2, hfe2⟩ : Ready h2 (given e') (payloadOf d :: live) items1 ∧
      (FenceBits h1 items1 → FenceBits h2 items1) := by
    refine hgr.ready.of_payload hd hdk (fun x hx => ?_) (fun x => ?_) hhead hbitmap hout
    · rw [hmem, if_neg (by unfold payloadOf; omega)]
    · rw [hmem]
      split
      · exact hgr.ready.rep.words _
      · exact hgr.ready.rep.words _
  have hlive : payloadOf u ∈ payloadOf d :: live := List.mem_cons_of_mem _
    (hr.live.mem_iff.mpr (List.mem_map_of_mem huu))
  obtain ⟨h3, items', hfree, hfreed⟩ := freeHeapEx_spec hr2 hlive (show 2 ≤ fuel by omega)
  have hpd : payloadOf d ≠ payloadOf u := fun heq => hdu (hgr.ready.layout.eq_of_addr hd hui (by
    unfold payloadOf at heq
    omega))
  have hdkept := hfreed.kept d (mem_usedOf.mpr ⟨hd, hdk⟩) hpd
  have herase : (payloadOf d :: live).erase (payloadOf u) = payloadOf d :: live.erase (payloadOf u) :=
    List.erase_cons_tail (by simpa using hpd)
  refine ⟨e', h3, payloadOf d, items', by rw [if_neg h0, hfree], Or.inr ⟨h0, herase ▸ hfreed.ready,
    ⟨d, (mem_usedOf.mp hdkept.1).1, hdk, rfl, hds⟩, by omega, fun x hx hx4 => ?_,
    fun v hv hvu => ?_⟩, fun hf hc => hfreed.fence (hfe2 (hfe hf fun _ => hc (by omega)))⟩
  · rw [hdkept.2 _ (by rw [inside_iff]; unfold payloadOf; omega), hmem,
      if_pos (by unfold payloadOf; omega), show payloadOf d + x - payloadOf d = x by omega]
    exact hkept _ (by rw [inside_iff]; unfold payloadOf; omega)
  · obtain ⟨hv1, hvkept⟩ := hgr.kept v hv
    have hvi := (mem_usedOf.mp hv1).1
    have hvp : payloadOf v ≠ payloadOf u := fun heq => hvu (hgr.ready.layout.eq_of_addr hvi hui (by
      unfold payloadOf at heq
      omega))
    have hvd : v ≠ d := fun hvd => hnew (hvd ▸ hv)
    obtain ⟨hv2, hvkept2⟩ := hfreed.kept v hv1 hvp
    refine ⟨hv2, fun x hx => ?_⟩
    have hvdisj := hgr.ready.layout.disjoint hvi hd hvd
    rw [hvkept2 x hx, hmem, if_neg, hvkept x hx]
    rw [inside_iff] at hx
    unfold payloadOf
    omega

end Realloc

end Nolrem.Mem
