import Nolrem.Mem.HeapRuns

/-!
# What an allocation promises

`AllocHeapEx` adds to the size it is given in several places without a check. Up to
`SIZE_MAX - 31` nothing wraps, and the caller gets a block of its own that is large enough.
-/

namespace Nolrem.Mem

open Nolrem.Lib

section Contract

variable {σ : Type}

/-- `ptr` points to a block of one chunk with room for `size` bytes. -/
def BlockAt (h : Heap) (chunks : List Chunk) (ptr size : Nat) : Prop :=
  size + metadataTotal ≤ getSize h (wsub ptr 4) ∧ ∃ c ∈ chunks,
    c.base ≤ wsub ptr 4 ∧ wsub ptr 4 + getSize h (wsub ptr 4) ≤ c.base + c.len

/-- The blocks of two pointers do not overlap. -/
def Apart (h : Heap) (ptr ptr' : Nat) : Prop :=
  wsub ptr 4 + getSize h (wsub ptr 4) ≤ wsub ptr' 4 ∨
    wsub ptr' 4 + getSize h (wsub ptr' 4) ≤ wsub ptr 4

/-- `AllocHeapEx` returns `NULL` or a block for `size` bytes that is apart from the others. -/
def AllocContract (getMemory : GetMemory σ) (given : σ → List Chunk) (fuel : Nat)
    (s : HeapState σ) (size : Nat) : Prop :=
  ∃ e h ptr, allocHeapEx getMemory fuel s.env s.heap size = .ok (e, h, ptr) ∧
    (ptr = 0 ∨ BlockAt h (given e) ptr size ∧ ∀ q ∈ s.live, Apart h ptr q)

/--
`ReallocHeapEx` returns a block for `newSize` bytes with the old contents, or `NULL` and the old
block is as it was.
-/
def ReallocContract (getMemory : GetMemory σ) (given : σ → List Chunk) (fuel : Nat)
    (s : HeapState σ) (ptr newSize : Nat) : Prop :=
  ∃ e h newPtr, reallocHeapEx getMemory fuel s.env s.heap ptr newSize = .ok (e, h, newPtr) ∧
    if newPtr = 0 then
      ∀ x, wsub ptr 4 ≤ x → x < wsub ptr 4 + getSize s.heap (wsub ptr 4) → h.mem x = s.heap.mem x
    else
      BlockAt h (given e) newPtr newSize ∧
        ∀ x < min (payloadSize s.heap ptr) newSize, x % 4 = 0 →
          h.mem (newPtr + x) = s.heap.mem (ptr + x)

variable {getMemory : GetMemory σ} {given : σ → List Chunk} {fuel : Nat} {s : HeapState σ}
  {h : Heap} {chunks : List Chunk} {items : List Item} {live : List Nat} {u : Item} {size : Nat}

/-- What the code reads off the pointer to a block in use. -/
theorem Ready.header_eq (hr : Ready h chunks live items) (hu : u ∈ items) :
    wsub (payloadOf u) 4 = u.addr ∧ getSize h u.addr = u.size := by
  have h1 := hr.layout.size_pos hu
  have h2 := hr.layout.bounds hu
  refine ⟨?_, (hr.rep.tagged u hu).header⟩
  unfold payloadOf
  rw [wsub_eq (by omega) (by omega), Nat.add_sub_cancel]

theorem Ready.blockAt (hr : Ready h chunks live items) (hu : u ∈ items)
    (hsize : size + 8 ≤ u.size) : BlockAt h chunks (payloadOf u) size := by
  obtain ⟨h1, h2⟩ := hr.header_eq hu
  obtain ⟨c, hc, h3, h4, -⟩ := hr.layout.in_chunk hu
  unfold BlockAt
  rw [h1, h2]
  exact ⟨hsize, c, hc, h3, h4⟩

theorem alloc_contract (hg : GivesFresh getMemory given) (hfuel : 4294967296 < fuel)
    (hs : Reachable getMemory given fuel s) (hle : size ≤ 4294967264) :
    AllocContract getMemory given fuel s size := by
  obtain ⟨items, hr⟩ := hs.ready hg hfuel
  obtain ⟨e, h, ptr, items', halloc, hres, -⟩ := allocHeapEx_spec hg hr hle hfuel
  refine ⟨e, h, ptr, halloc, ?_⟩
  rcases hres with ⟨h0, -⟩ | ⟨-, hgr⟩
  · exact Or.inl h0
  obtain ⟨u, hu, huk, rfl, husize, hnew⟩ := hgr.block
  refine Or.inr ⟨hgr.ready.blockAt hu husize, fun q hq => ?_⟩
  obtain ⟨v, hv, rfl⟩ := List.mem_map.mp (hr.live.mem_iff.mp hq)
  have hv' := (mem_usedOf.mp (hgr.kept v hv).1).1
  obtain ⟨h1, h2⟩ := hgr.ready.header_eq hu
  obtain ⟨h3, h4⟩ := hgr.ready.header_eq hv'
  unfold Apart
  rw [h1, h2, h3, h4]
  exact hgr.ready.layout.disjoint hu hv' fun huv => hnew (huv ▸ hv)

theorem realloc_contract (hg : GivesFresh getMemory given) (hfuel : 4294967296 < fuel)
    (hs : Reachable getMemory given fuel s) {ptr : Nat} (hp : ptr ∈ s.live)
    (hle : size ≤ 4294967264) : ReallocContract getMemory given fuel s ptr size := by
  obtain ⟨items, hr⟩ := hs.ready hg hfuel
  obtain ⟨u, hu, huk, rfl, -⟩ := hr.block_of_live hp
  have hub := hr.layout.bounds hu
  obtain ⟨e, h, r, items', hre, hres, -⟩ := reallocHeapEx_spec hg hr hu huk hle hfuel
  refine ⟨e, h, r, hre, ?_⟩
  show if r = 0 then _ else _ ∧ ∀ x < min (payloadSize s.heap (payloadOf u)) size, _
  rw [hr.payloadSize_eq hu huk]
  rcases hres with ⟨hor, rfl, rfl, hgiven⟩ | ⟨hr0, hmoved⟩
  · split
    · exact fun x _ _ => rfl
    · next hne =>
      obtain ⟨rfl, hfit⟩ := hor.resolve_left hne
      rw [hgiven]
      exact ⟨hr.blockAt hu (by have := hr.layout.size_pos hu; omega), fun x _ _ => rfl⟩
  · rw [if_neg hr0]
    obtain ⟨d, hd, -, rfl, hdsize⟩ := hmoved.block
    exact ⟨hmoved.ready.blockAt hd hdsize, fun x hx hx4 => hmoved.copied x (by omega) hx4⟩

end Contract

/-! ## Sizes that wrap -/

theorem oneBlock_live : 4108 ∈ oneBlock.live ∧ payloadSize oneBlock.heap 4108 = 40 := by
  decide +kernel

instance (h : Heap) (chunks : List Chunk) (ptr size : Nat) : Decidable (BlockAt h chunks ptr size) :=
  inferInstanceAs (Decidable (_ ∧ _))

theorem BlockAt.mono {h : Heap} {chunks : List Chunk} {ptr size small : Nat}
    (hb : BlockAt h chunks ptr size) (hle : small ≤ size) : BlockAt h chunks ptr small := by
  obtain ⟨h1, h2⟩ := hb
  exact ⟨by omega, h2⟩

/-- The call returns a pointer, and not to a block with room for `size` bytes. -/
def Misled (r : Except Fault (Nat × Heap × Nat)) (size : Nat) : Prop :=
  match r with
  | .ok (e, h, ptr) => ptr ≠ 0 ∧ ¬ BlockAt h (fewGiven 64 e) ptr size
  | .error _ => False

instance (r : Except Fault (Nat × Heap × Nat)) (size : Nat) : Decidable (Misled r size) :=
  match r with
  | .ok (_, _, _) => inferInstanceAs (Decidable (_ ∧ _))
  | .error _ => inferInstanceAs (Decidable False)

/-- The sizes from `SIZE_MAX - 30` on, cut where the rounded size changes. -/
def wrapRanges : List (Nat × Nat) :=
  [(4294967265, 4294967272), (4294967273, 4294967280), (4294967281, 4294967288),
    (4294967289, 4294967295)]

theorem mem_wrapRanges {size : Nat} (h1 : 4294967264 < size) (h2 : size < 4294967296) :
    ∃ p ∈ wrapRanges, p.1 ≤ size ∧ 4294967264 < p.2 ∧ roundUpSize size = roundUpSize p.2 := by
  have hround : ∀ n, 4294967264 < n → n < 4294967296 →
      roundUpSize n = if n ≤ 4294967288 then (n + 7) / 8 * 8 else 0 := by
    intro n h1 h2
    unfold roundUpSize minReqSize alignment wadd
    rw [if_neg (by omega)]
    show sizeBits ((n + 7) % 4294967296) = _
    rw [sizeBits_eq (Nat.mod_lt _ (by decide))]
    split <;> omega
  have hcases : size ≤ 4294967272 ∨ 4294967273 ≤ size ∧ size ≤ 4294967280 ∨
      4294967281 ≤ size ∧ size ≤ 4294967288 ∨ 4294967289 ≤ size := by omega
  rcases hcases with h | h | h | h
  · refine ⟨(4294967265, 4294967272), by decide, by simp only; omega, by decide, ?_⟩
    rw [hround size h1 h2, hround _ (by decide) (by decide)]
    split_ifs <;> omega
  · refine ⟨(4294967273, 4294967280), by decide, by simp only; omega, by decide, ?_⟩
    rw [hround size h1 h2, hround _ (by decide) (by decide)]
    split_ifs <;> omega
  · refine ⟨(4294967281, 4294967288), by decide, by simp only; omega, by decide, ?_⟩
    rw [hround size h1 h2, hround _ (by decide) (by decide)]
    split_ifs <;> omega
  · refine ⟨(4294967289, 4294967295), by decide, by simp only; omega, by decide, ?_⟩
    rw [hround size h1 h2, hround _ (by decide) (by decide)]
    split_ifs <;> omega

section Congr

variable {σ : Type} {getMemory : GetMemory σ} {fuel : Nat} {e : σ} {h : Heap} {a b ptr : Nat}

/-- Only the rounded size matters. -/
theorem allocHeapEx_congr (ha : a ≠ 0) (hb : b ≠ 0) (hab : roundUpSize a = roundUpSize b) :
    allocHeapEx getMemory fuel e h a = allocHeapEx getMemory fuel e h b := by
  unfold allocHeapEx
  rw [if_neg ha, if_neg hb, hab]

theorem reallocHeapEx_congr (hp : ptr ≠ 0) (ha : payloadSize h ptr < a)
    (hb : payloadSize h ptr < b) (hab : roundUpSize a = roundUpSize b) :
    reallocHeapEx getMemory fuel e h ptr a = reallocHeapEx getMemory fuel e h ptr b := by
  unfold payloadSize at ha hb
  unfold reallocHeapEx
  simp only [if_neg hp, if_neg (show ¬ a ≤ _ from Nat.not_le.mpr ha),
    if_neg (show ¬ b ≤ _ from Nat.not_le.mpr hb),
    allocHeapEx_congr (show a ≠ 0 by omega) (show b ≠ 0 by omega) hab]

end Congr

theorem alloc_misled : ∀ p ∈ wrapRanges,
    Misled (allocHeapEx (fewChunks 64) 4294967297 (emptyHeap 0).env (emptyHeap 0).heap p.2) p.1 := by
  decide +kernel

theorem realloc_misled : ∀ p ∈ wrapRanges,
    Misled (reallocHeapEx (fewChunks 64) 4294967297 oneBlock.env oneBlock.heap 4108 p.2) p.1 := by
  decide +kernel

theorem not_allocContract {size : Nat} (h1 : 4294967264 < size) (h2 : size < 4294967296) :
    ¬ AllocContract (fewChunks 64) (fewGiven 64) 4294967297 (emptyHeap 0) size := by
  obtain ⟨p, hp, hle, hlow, hround⟩ := mem_wrapRanges h1 h2
  have hmis := alloc_misled p hp
  rw [← allocHeapEx_congr (by omega) (by omega) hround] at hmis
  rintro ⟨e, h, ptr, halloc, hor⟩
  rw [halloc] at hmis
  exact hmis.2 ((hor.resolve_left hmis.1).1.mono hle)

theorem not_reallocContract {size : Nat} (h1 : 4294967264 < size) (h2 : size < 4294967296) :
    ¬ ReallocContract (fewChunks 64) (fewGiven 64) 4294967297 oneBlock 4108 size := by
  obtain ⟨p, hp, hle, hlow, hround⟩ := mem_wrapRanges h1 h2
  have hmis := realloc_misled p hp
  have hpay := oneBlock_live.2
  rw [← reallocHeapEx_congr (by decide) (by omega) (by omega) hround] at hmis
  rintro ⟨e, h, ptr, hre, hor⟩
  rw [hre] at hmis
  rw [if_neg hmis.1] at hor
  exact hmis.2 (hor.1.mono hle)

/-- `AllocHeapEx` and `ReallocHeapEx` keep their promise for a size exactly if nothing wraps. -/
theorem allocation_contract_iff {size : Nat} (hsize : size < 4294967296) :
    ((∀ (σ : Type) (getMemory : GetMemory σ) (given : σ → List Chunk) (fuel : Nat)
        (s : HeapState σ), GivesFresh getMemory given → 4294967296 < fuel →
        Reachable getMemory given fuel s → AllocContract getMemory given fuel s size) ↔
      size ≤ 4294967264) ∧
    ((∀ (σ : Type) (getMemory : GetMemory σ) (given : σ → List Chunk) (fuel : Nat)
        (s : HeapState σ), GivesFresh getMemory given → 4294967296 < fuel →
        Reachable getMemory given fuel s →
        ∀ ptr ∈ s.live, ReallocContract getMemory given fuel s ptr size) ↔
      size ≤ 4294967264) := by
  refine ⟨⟨fun hall => ?_, fun hle σ getMemory given fuel s hg hf hs => ?_⟩,
    fun hall => ?_, fun hle σ getMemory given fuel s hg hf hs ptr hp => ?_⟩
  · by_contra hlt
    exact not_allocContract (by omega) hsize (hall _ _ _ _ _
      (fewChunks_givesFresh (by decide) (by decide)) (by decide) (emptyHeap_reachable (by decide)))
  · exact alloc_contract hg hf hs hle
  · by_contra hlt
    exact not_reallocContract (by omega) hsize (hall _ _ _ _ _
      (fewChunks_givesFresh (by decide) (by decide)) (by decide) oneBlock_reachable _ oneBlock_live.1)
  · exact realloc_contract hg hf hs hp hle

/-- `SIZE_MAX` bytes. -/
theorem allocation_contract_iff_size_max :
    ¬ (∀ (σ : Type) (getMemory : GetMemory σ) (given : σ → List Chunk) (fuel : Nat)
        (s : HeapState σ), GivesFresh getMemory given → 4294967296 < fuel →
        Reachable getMemory given fuel s → AllocContract getMemory given fuel s 4294967295) :=
  fun hall => absurd ((allocation_contract_iff (by decide)).1.mp hall) (by decide)

/-- `SIZE_MAX` bytes are rounded up to none, and the caller gets a block for none. -/
theorem alloc_size_max_wraps :
    GivesFresh (fewChunks 64) (fewGiven 64) ∧
      Reachable (fewChunks 64) (fewGiven 64) 4294967297 (emptyHeap 0) ∧
      ¬ AllocContract (fewChunks 64) (fewGiven 64) 4294967297 (emptyHeap 0) 4294967295 :=
  ⟨fewChunks_givesFresh (by decide) (by decide), emptyHeap_reachable (by decide),
    not_allocContract (by decide) (by decide)⟩

end Nolrem.Mem
