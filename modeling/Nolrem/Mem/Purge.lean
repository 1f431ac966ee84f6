import Nolrem.Mem.HeapRuns

/-!
# Purging

`PurgeFreeAreasFromHeapEx` gives a chunk back when the blocks before and after a free block are
fenceposts. It tells them by bit 1 of their headers, which the code sets on fenceposts and
never clears: on a block it is whatever was in memory where the header was put.
-/

namespace Nolrem.Mem

open Nolrem.Lib

variable {h h' : Heap} {chunks : List Chunk} {items items' : List Item} {live : List Nat}
  {b : Item} {c : Chunk}

/-! ## A block that spans its chunk -/

/-- The block `b` and two fenceposts are all there is in `c`. -/
structure Spans (chunks : List Chunk) (items : List Item) (b : Item) (c : Chunk) : Prop where
  mem : c ∈ chunks
  left : (⟨c.base, 8, .fence⟩ : Item) ∈ items
  right : (⟨c.base + c.len - 8, 8, .fence⟩ : Item) ∈ items
  addr : b.addr = c.base + 8
  size : b.size = c.len - 16

/-- Two chunks that share an address are the same. -/
theorem Layout.chunk_eq (hl : Layout chunks items) {d : Chunk} (hc : c ∈ chunks) (hd : d ∈ chunks)
    {x : Nat} (hcx : Inside Chunk.span c x) (hdx : Inside Chunk.span d x) : c = d :=
  eq_of_cover_le_one Chunk.span (hl.once x) hc hd hcx hdx

theorem inside_chunk_iff {x : Nat} :
    Inside Chunk.span c x ↔ c.base ≤ x ∧ x < c.base + c.len := Iff.rfl

/-- With the bits in order, the code sees that a free block spans its chunk. -/
theorem spans_of_fenceposts (hl : Layout chunks items) (hr : Rep h items) (hf : FenceBits h items)
    (hb : b ∈ items) (hk : b.kind = .free) (hspan : doesFreeBlockSpanEntireChunk h b.addr = true) :
    ∃ c, Spans chunks items b c ∧ chunkAround h b.addr = c := by
  have hbf : b.kind ≠ .fence := by simp [hk]
  obtain ⟨n, hn, hna⟩ := hl.next hb hbf
  obtain ⟨p, hp, hpa⟩ := hl.prev hb hbf
  have hsize := (hr.tagged b hb).header
  have hprev := hr.prevBlock_eq hl hb hp hpa
  have hnext := Rep.nextBlock_eq hl hb hn hna
  have hfences : p.kind = .fence ∧ n.kind = .fence := by
    unfold doesFreeBlockSpanEntireChunk at hspan
    rw [hsize, hprev, hnext, hf p hp, hf n hn] at hspan
    split at hspan
    · exact absurd hspan (by decide)
    · simpa using hspan
  obtain ⟨hp8, e, he, hpe⟩ := hl.fence p hp hfences.1
  obtain ⟨hn8, g, hg, hng⟩ := hl.fence n hn hfences.2
  obtain ⟨c, hc, hc1, hc2, hc3⟩ := hl.in_chunk hb
  have hbc := hc3 hbf
  have hbs := hl.size_pos hb
  have hcc := hl.chunk c hc
  have hec := hl.chunk e he
  have hgc := hl.chunk g hg
  -- both fenceposts are in the chunk of the block
  obtain rfl : e = c := hl.chunk_eq he hc (x := p.addr)
    (by rw [inside_chunk_iff]; omega) (by rw [inside_chunk_iff]; omega)
  obtain rfl : g = e := hl.chunk_eq hg hc (x := n.addr)
    (by rw [inside_chunk_iff]; omega) (by rw [inside_chunk_iff]; omega)
  have hpb : p.addr = g.base := by omega
  have hnb : n.addr = g.base + g.len - 8 := by omega
  refine ⟨g, ⟨hg, ?_, ?_, by omega, by omega⟩, ?_⟩
  · rw [← hpb, ← hp8, ← hfences.1]
    exact hp
  · rw [← hnb, ← hn8, ← hfences.2]
    exact hn
  · unfold chunkAround
    simp only [hsize, hprev, hnext, hpb, hnb]
    have hlen : wsub (wadd (g.base + g.len - 8) minReqSize) g.base = g.len := by
      unfold wsub wadd minReqSize
      omega
    rw [hlen]

/-- Two members of a tiling in which one was erased do not share an address. -/
theorem Layout.not_inside_erase (hl : Layout chunks items) (hc : c ∈ chunks) {d : Chunk}
    (hd : d ∈ chunks.erase c) {x : Nat} (hdx : Inside Chunk.span d x) :
    ¬ Inside Chunk.span c x := by
  intro hcx
  have h1 := cover_perm Chunk.span (List.perm_cons_erase hc) x
  have h2 := cover_pos_of_mem Chunk.span hd hdx
  have h3 : hit (Chunk.span c).1 (Chunk.span c).2 x = 1 := if_pos hcx
  have h4 := hl.once x
  rw [cover_cons] at h1
  omega

/-- A chunk is given back with all that is in it. -/
theorem Layout.remove (hl : Layout chunks items) (hc : c ∈ chunks) {old rest : List Item}
    (hp : items.Perm (old ++ rest))
    (hcover : ∀ x, cover Item.span old x = hit c.base (c.base + c.len) x) :
    Layout (chunks.erase c) rest := by
  have hrest : ∀ b ∈ rest, b ∈ items := fun b hb => hp.mem_iff.mpr (by simp [hb])
  have hchunks : ∀ x, cover Chunk.span chunks x =
      hit c.base (c.base + c.len) x + cover Chunk.span (chunks.erase c) x := by
    intro x
    rw [cover_perm Chunk.span (List.perm_cons_erase hc) x, cover_cons]
    rfl
  have hitems : ∀ x, cover Item.span items x =
      hit c.base (c.base + c.len) x + cover Item.span rest x := by
    intro x
    rw [cover_perm Item.span hp x, cover_append, hcover]
  -- an item is in the chunk exactly if it is one of those that go
  have hold : ∀ b ∈ old, Inside Chunk.span c b.addr := by
    intro b hb
    have hpos := hl.size_pos (hp.mem_iff.mpr (List.mem_append_left rest hb))
    have h1 := cover_pos_of_mem Item.span hb (x := b.addr) (by rw [inside_iff]; omega)
    rw [hcover] at h1
    unfold hit at h1
    split at h1
    · next hin => exact hin
    · omega
  have hnew : ∀ b ∈ rest, ¬ Inside Chunk.span c b.addr := by
    intro b hb hin
    have hpos := hl.size_pos (hrest b hb)
    have h1 : hit c.base (c.base + c.len) b.addr = 1 := if_pos hin
    have h2 := cover_pos_of_mem Item.span hb (x := b.addr) (by rw [inside_iff]; omega)
    have h3 := hitems b.addr
    have h4 := hl.tiled b.addr
    have h5 := hl.once b.addr
    omega
  have hstay : ∀ b ∈ items, ¬ Inside Chunk.span c b.addr → b ∈ rest := by
    intro b hb hin
    exact (List.mem_append.mp (hp.mem_iff.mp hb)).resolve_left fun hbo => hin (hold b hbo)
  refine ⟨fun x => ?_, fun x => ?_, fun e he => hl.chunk e (List.mem_of_mem_erase he),
    fun e he => ?_, fun e he => ?_, fun b hb hk => ?_, fun b hb => hl.size b (hrest b hb),
    fun b hb d hd => hl.apart b (hrest b hb) d (hrest d hd)⟩
  · have h1 := hl.tiled x
    rw [hitems, hchunks] at h1
    omega
  · have h1 := hl.once x
    rw [hchunks] at h1
    omega
  · have hec := hl.chunk e (List.mem_of_mem_erase he)
    obtain ⟨b, hb, hk, hba⟩ := hl.left e (List.mem_of_mem_erase he)
    exact ⟨b, hstay b hb (hl.not_inside_erase hc he (by rw [inside_chunk_iff]; omega)), hk, hba⟩
  · have hec := hl.chunk e (List.mem_of_mem_erase he)
    obtain ⟨b, hb, hk, hba⟩ := hl.right e (List.mem_of_mem_erase he)
    exact ⟨b, hstay b hb (hl.not_inside_erase hc he (by rw [inside_chunk_iff]; omega)), hk, hba⟩
  · obtain ⟨h8, e, he, hbe⟩ := hl.fence b (hrest b hb) hk
    have hec := hl.chunk e he
    refine ⟨h8, e, (List.mem_erase_of_ne ?_).mpr he, hbe⟩
    rintro rfl
    exact hnew b hb (by rw [inside_chunk_iff]; omega)

/-! ## One chunk -/

/-- What is left after a chunk was given back. -/
structure GivenBack (h : Heap) (chunks : List Chunk) (live : List Nat) (items : List Item)
    (h' : Heap) (c : Chunk) (items' : List Item) : Prop where
  mem : c ∈ chunks
  ready : Ready h' (chunks.erase c) live items'
  fence : FenceBits h' items'
  used : (usedOf items').Perm (usedOf items)

theorem returnChunk_spec (hr : Ready h chunks live items) (hf : FenceBits h items)
    (hb : b ∈ items) (hk : b.kind = .free) (hlast : getInsertionIndex (b.size - 8) = 23)
    (hs : Spans chunks items b c) (fuel : Nat) : ∃ h' a items',
      allocateBlock fuel h b.addr 23 (wsub (getSize h b.addr) metadataTotal) = .ok (h', a) ∧
      GivenBack h chunks live items h' c items' := by
  have hl := hr.layout
  have hbs := hl.size b hb
  have hb16 := hbs.2 (by simp [hk])
  have hbb := hl.bounds hb
  have hcc := hl.chunk c hs.mem
  have haddr := hs.addr
  have hsize := hs.size
  obtain ⟨items1, ht, hfe, rfl⟩ := takeWhole_spec hl hr.rep hr.settled hb hk (i := 23)
    (by rw [hr.rep.listOf_eq hl hb, hlast]) (show b.size - 8 + 8 ≤ b.size by omega)
  set p : Item := ⟨c.base, 8, .fence⟩ with hpdef
  set n : Item := ⟨c.base + c.len - 8, 8, .fence⟩ with hndef
  set rest := ((items.erase b).erase p).erase n with hrest
  have hpb : p ≠ b := fun heq => by simp [← heq, hpdef] at hk
  have hnb : n ≠ b := fun heq => by simp [← heq, hndef] at hk
  have hnp : n ≠ p := fun heq => by
    have := congrArg Item.addr heq
    simp only [hndef, hpdef] at this
    omega
  have hperm : (items.erase b).Perm (p :: n :: rest) := by
    have h1 : p ∈ items.erase b := (List.mem_erase_of_ne hpb).mpr hs.left
    have h2 : n ∈ (items.erase b).erase p :=
      (List.mem_erase_of_ne hnp).mpr ((List.mem_erase_of_ne hnb).mpr hs.right)
    exact (List.perm_cons_erase h1).trans ((List.perm_cons_erase h2).cons p)
  have hold : ({ b with kind := .used } :: items.erase b).Perm
      ([{ b with kind := .used }, p, n] ++ rest) := hperm.cons _
  have hcover : ∀ x, cover Item.span [{ b with kind := .used }, p, n] x =
      hit c.base (c.base + c.len) x := by
    intro x
    have h1 := hit_split (a := c.base) (b := c.base + 8) (c := c.base + c.len) (by omega)
      (by omega) x
    have h2 := hit_split (a := c.base + 8) (b := c.base + c.len - 8) (c := c.base + c.len)
      (by omega) (by omega) x
    simp only [cover_cons, cover_nil, Item.span, hpdef, hndef, haddr, hsize]
    rw [show c.base + c.len - 8 + 8 = c.base + c.len by omega,
      show c.base + 8 + (c.len - 16) = c.base + c.len - 8 by omega]
    omega
  have hl' := ht.layout.remove hs.mem hold hcover
  have hr' : Rep (takeWhole h 23 b.addr) ([] ++ rest) :=
    ht.rep.retag ht.layout hold (by simp [hpdef, hndef]) (by simp) (fun d hd x hx => rfl)
      ht.rep.words rfl rfl
  have hsub : ∀ d ∈ rest, d ∈ { b with kind := .used } :: items.erase b := fun d hd =>
    hold.mem_iff.mpr (List.mem_append_right _ hd)
  have hused : (usedOf rest).Perm (usedOf items) := by
    have h1 : (usedOf items).Perm (usedOf (b :: p :: n :: rest)) :=
      usedOf_perm ((List.perm_cons_erase hb).trans (hperm.cons b))
    have h2 : usedOf (b :: p :: n :: rest) = usedOf rest := by
      simp [usedOf, hk, hpdef, hndef]
    rw [h2] at h1
    exact h1.symm
  have htotal : wadd (wsub (getSize h b.addr) metadataTotal) metadataTotal = b.size := by
    rw [(hr.rep.tagged b hb).header]
    unfold metadataTotal
    rw [wsub_eq (by omega) (by omega), wadd_eq (by omega)]
    omega
  refine ⟨takeWhole h 23 b.addr, b.addr, rest, ?_, hs.mem, ⟨hl', hr', fun d hd =>
    ht.settled d (hsub d hd), hr.live.trans (hused.map payloadOf).symm, ?_⟩,
    fun d hd => hfe hf d (hsub d hd), hused⟩
  · have hzero : wsub b.size b.size = 0 := by
      rw [wsub_eq (by omega) (by omega), Nat.sub_self]
    unfold allocateBlock
    simp only [htotal]
    rw [(hr.rep.tagged b hb).header, hzero, if_pos (by decide)]
  · rw [ht.outstanding, hr.outstanding]
    exact (usedSize_perm hused).symm

/-! ## The loop -/

theorem findWholeChunk_spec : ∀ {l : List Nat} {start : Nat} (fuel : Nat),
    Chain (fun b => ptr (h.next b)) (ptr start) l → l.length < fuel →
      ∃ r, findWholeChunk h fuel start = .ok r ∧
        ∀ a, r = some a → a ∈ l ∧ doesFreeBlockSpanEntireChunk h a = true
  | [], start, fuel + 1, hc, _ => by
    have h0 : start = 0 := ptr_eq_none.mp (by simpa [Chain, Seg, eq_comm] using hc)
    exact ⟨none, by rw [findWholeChunk, if_pos h0], by simp⟩
  | a :: l, start, fuel + 1, hc, hlen => by
    obtain ⟨hs, hrest⟩ : ptr start = some a ∧ Chain (fun b => ptr (h.next b)) (ptr (h.next a)) l :=
      hc
    obtain ⟨rfl, hne⟩ := ptr_eq_some.mp hs
    rw [findWholeChunk, if_neg hne]
    by_cases hspan : doesFreeBlockSpanEntireChunk h start = true
    · rw [if_pos hspan]
      refine ⟨some start, rfl, fun a ha => ?_⟩
      obtain rfl := Option.some.inj ha
      exact ⟨List.mem_cons_self, hspan⟩
    · rw [if_neg hspan]
      obtain ⟨r, hr, hspec⟩ := findWholeChunk_spec fuel hrest
        (by simp only [List.length_cons] at hlen; omega)
      exact ⟨r, hr, fun a ha => ⟨List.mem_cons_of_mem _ (hspec a ha).1, (hspec a ha).2⟩⟩
  | _ :: _, _, 0, _, hlen => absurd hlen (Nat.not_lt_zero _)
  | [], _, 0, _, hlen => absurd hlen (Nat.not_lt_zero _)

/-- A purge gives back chunks of the heap, and the rest of the heap stays in order. -/
structure Purged (h : Heap) (chunks : List Chunk) (live : List Nat) (items : List Item)
    (h' : Heap) (returned : List Chunk) (items' : List Item) : Prop where
  ready : Ready h' (returned.foldl List.erase chunks) live items'
  fence : FenceBits h' items'
  used : (usedOf items').Perm (usedOf items)
  chunks : chunks.Perm (returned ++ returned.foldl List.erase chunks)

/-- What the search for a block that spans its chunk finds. -/
theorem findWholeChunk_found (hr : Ready h chunks live items) (hf : FenceBits h items)
    {fuel : Nat} (hfuel : 4294967296 < fuel) :
    ∃ r, findWholeChunk h fuel (h.headBlock (totalNumFreeLists - 1)) = .ok r ∧
      ∀ a, r = some a → ∃ h' a' c items',
        allocateBlock fuel h a (totalNumFreeLists - 1) (wsub (getSize h a) metadataTotal) =
          .ok (h', a') ∧
        chunkAround h a = c ∧ GivenBack h chunks live items h' c items' := by
  obtain ⟨l, hlist, hmem⟩ := hr.rep.lists 23
  have hll := Rep.length_le hr.layout hlist.nodup fun a ha => by
    obtain ⟨b, hb, -, hba, -⟩ := (hmem a).mp ha
    exact ⟨b, hb, hba⟩
  obtain ⟨r, hfind, hspec⟩ := findWholeChunk_spec fuel hlist.chain (lt_of_le_of_lt hll hfuel)
  refine ⟨r, hfind, fun a ha => ?_⟩
  obtain ⟨hal, hspan⟩ := hspec a ha
  obtain ⟨b, hb, hk, rfl, hlast⟩ := (hmem a).mp hal
  obtain ⟨c, hs, hc⟩ := spans_of_fenceposts hr.layout hr.rep hf hb hk hspan
  obtain ⟨h', a', items', halloc, hret⟩ := returnChunk_spec hr hf hb hk hlast hs fuel
  exact ⟨h', a', c, items', halloc, hc, hret⟩

theorem ok_bind {α β : Type} (a : α) (f : α → Except Fault β) : (.ok a >>= f) = f a := rfl

theorem purgeFrom_some {fuel n a a' : Nat} {acc : List Chunk}
    (hfind : findWholeChunk h fuel (h.headBlock (totalNumFreeLists - 1)) = .ok (some a))
    (halloc : allocateBlock fuel h a (totalNumFreeLists - 1)
      (wsub (getSize h a) metadataTotal) = .ok (h', a')) :
    purgeFrom fuel (n + 1) h acc = purgeFrom fuel n h' (acc ++ [chunkAround h a]) := by
  rw [purgeFrom, hfind, ok_bind]
  dsimp only
  rw [halloc, ok_bind]

theorem purgeFrom_none {fuel n : Nat} {acc : List Chunk}
    (hfind : findWholeChunk h fuel (h.headBlock (totalNumFreeLists - 1)) = .ok none) :
    purgeFrom fuel (n + 1) h acc = .ok (h, acc) := by
  rw [purgeFrom, hfind]
  rfl

theorem purgeFrom_spec {fuel : Nat} (hfuel : 4294967296 < fuel) (n : Nat) :
    ∀ {h : Heap} {chunks : List Chunk} {items : List Item} (acc : List Chunk),
      chunks.length < n → Ready h chunks live items → FenceBits h items →
      ∃ h' returned items', purgeFrom fuel n h acc = .ok (h', acc ++ returned) ∧
        Purged h chunks live items h' returned items' := by
  induction n with
  | zero => exact fun _ hlen => absurd hlen (Nat.not_lt_zero _)
  | succ n ih =>
    intro h chunks items acc hlen hr hf
    obtain ⟨r, hfind, hspec⟩ := findWholeChunk_found hr hf hfuel
    cases r with
    | none =>
      exact ⟨h, [], items, by rw [purgeFrom_none hfind, List.append_nil], hr, hf, List.Perm.refl _,
        List.Perm.refl _⟩
    | some a =>
      obtain ⟨h1, a', c, items1, halloc, hc, hret⟩ := hspec a rfl
      have hlen1 := List.length_erase_of_mem hret.mem
      have hpos := List.length_pos_of_mem hret.mem
      obtain ⟨h', returned, items', hpurge, hp⟩ := ih (acc ++ [c])
        (show (chunks.erase c).length < n by omega) hret.ready hret.fence
      refine ⟨h', c :: returned, items', ?_, hp.ready, hp.fence, hp.used.trans hret.used,
        (List.perm_cons_erase hret.mem).trans (hp.chunks.cons c)⟩
      rw [purgeFrom_some hfind halloc, hc, hpurge, List.append_assoc]
      rfl

theorem Layout.chunks_length_le (hl : Layout chunks items) : chunks.length ≤ 4294967296 := by
  have hnodup : (chunks.map Chunk.base).Nodup := by
    rw [List.nodup_iff_count_le_one]
    intro a
    have hle := hl.once a
    refine le_trans ?_ hle
    unfold cover
    rw [List.count, List.countP_map]
    refine List.countP_mono_left fun c hc hca => ?_
    obtain rfl : c.base = a := by simpa using hca
    have := hl.chunk c hc
    exact decide_eq_true (by rw [inside_chunk_iff]; omega)
  have hsub : chunks.map Chunk.base ⊆ List.range 4294967296 := by
    intro a ha
    obtain ⟨c, hc, rfl⟩ := List.mem_map.mp ha
    have := hl.chunk c hc
    rw [List.mem_range]
    omega
  have hle := (List.subperm_of_subset hnodup hsub).length_le
  rwa [List.length_map, List.length_range] at hle

theorem purgeFreeAreasFromHeapEx_spec (hr : Ready h chunks live items) (hf : FenceBits h items)
    {fuel : Nat} (hfuel : 4294967296 < fuel) : ∃ h' returned items',
      purgeFreeAreasFromHeapEx fuel h = .ok (h', returned) ∧
      Purged h chunks live items h' returned items' := by
  unfold purgeFreeAreasFromHeapEx
  split
  · exact ⟨h, [], items, rfl, hr, hf, List.Perm.refl _, List.Perm.refl _⟩
  · have hlen := hr.layout.chunks_length_le
    exact purgeFrom_spec hfuel fuel [] (by omega) hr hf

/-! ## Runs with purges -/

section Runs

variable {σ : Type}

/-- A call that puts headers only where bit 1 is clear, or a purge. -/
inductive CleanStep (getMemory : GetMemory σ) (given : σ → List Chunk) (takeBack : σ → Chunk → σ)
    (fuel : Nat) : HeapState σ → HeapState σ → Prop where
  | call {s s' : HeapState σ} {call : Call} {ptr : Nat} (allowed : call.Allowed given s)
      (clean : call.Clean getMemory fuel s) (run : call.run getMemory fuel s = .ok (s', ptr)) :
      CleanStep getMemory given takeBack fuel s s'
  | purge {s : HeapState σ} {h : Heap} {returned : List Chunk}
      (run : purgeFreeAreasFromHeapEx fuel s.heap = .ok (h, returned)) :
      CleanStep getMemory given takeBack fuel s
        { s with env := returned.foldl takeBack s.env, heap := h }

/-- The heap is in order, and bit 1 is set on the fenceposts and on no block. -/
def Marked (given : σ → List Chunk) (s : HeapState σ) : Prop :=
  ∃ items, Ready s.heap (given s.env) s.live items ∧ FenceBits s.heap items

variable {getMemory : GetMemory σ} {given : σ → List Chunk} {takeBack : σ → Chunk → σ}
  {fuel : Nat} {s s' : HeapState σ}

theorem given_foldl (ht : ∀ e c, given (takeBack e c) = (given e).erase c) :
    ∀ (returned : List Chunk) (e : σ),
      given (returned.foldl takeBack e) = returned.foldl List.erase (given e)
  | [], _ => rfl
  | c :: returned, e => by
    rw [List.foldl_cons, List.foldl_cons, given_foldl ht returned, ht]

theorem Marked.step (hg : GivesFresh getMemory given)
    (ht : ∀ e c, given (takeBack e c) = (given e).erase c) (hfuel : 4294967296 < fuel)
    (hm : Marked given s) (hstep : CleanStep getMemory given takeBack fuel s s') :
    Marked given s' := by
  obtain ⟨items, hr, hf⟩ := hm
  cases hstep with
  | call allowed clean run =>
    obtain ⟨s₁, ptr, items', hserved⟩ := call_served hg hfuel hr allowed
    obtain ⟨rfl, -⟩ := Prod.mk.inj (Except.ok.inj (hserved.run.symm.trans run))
    exact ⟨items', hserved.ready, hserved.fence hf clean⟩
  | purge run =>
    obtain ⟨h', returned, items', hpurge, hp⟩ := purgeFreeAreasFromHeapEx_spec hr hf hfuel
    obtain ⟨rfl, rfl⟩ := Prod.mk.inj (Except.ok.inj (hpurge.symm.trans run))
    refine ⟨items', ?_, hp.fence⟩
    show Ready h' (given (returned.foldl takeBack s.env)) s.live items'
    rw [given_foldl ht]
    exact hp.ready

end Runs

end Nolrem.Mem
