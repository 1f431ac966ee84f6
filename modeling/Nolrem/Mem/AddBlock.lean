import Nolrem.Mem.Rep

/-!
# Putting blocks back

`AddBlock` takes a held block, joins it with free neighbours and puts the result on its list.
-/

namespace Nolrem.Mem

open Nolrem.Lib

/-- From `h` to `h'` blocks that are not in use were cut up, joined and put on other lists. -/
structure Reshaped (chunks : List Chunk) (h : Heap) (items : List Item) (h' : Heap)
    (items' : List Item) : Prop where
  layout : Layout chunks items'
  rep : Rep h' items'
  used : (usedOf items').Perm (usedOf items)
  loose : ∀ x, Loose items' x → Loose items x
  frame : ∀ x, ¬ Loose items x → h'.mem x = h.mem x
  outstanding : h'.outstandingAllocatedMemory = h.outstandingAllocatedMemory
  returnsMemory : h'.returnsMemory = h.returnsMemory

variable {h h' h'' : Heap} {chunks : List Chunk} {items items' items'' : List Item} {b d : Item}

theorem Reshaped.trans (h1 : Reshaped chunks h items h' items')
    (h2 : Reshaped chunks h' items' h'' items'') : Reshaped chunks h items h'' items'' :=
  ⟨h2.layout, h2.rep, h2.used.trans h1.used, fun x hx => h1.loose x (h2.loose x hx),
    fun x hx => (h2.frame x fun hl => hx (h1.loose x hl)).trans (h1.frame x hx),
    h2.outstanding.trans h1.outstanding, h2.returnsMemory.trans h1.returnsMemory⟩

/-- What is in a fencepost or a block in use is in no other block. -/
theorem Layout.not_loose (hl : Layout chunks items) (hb : b ∈ items)
    (hk : b.kind = .fence ∨ b.kind = .used) {x : Nat} (hx : Inside Item.span b x) :
    ¬ Loose items x := by
  rintro ⟨d, hd, hdk, hdx⟩
  obtain rfl := hl.eq_of_inside hb hd hx hdx
  rcases hk with hk | hk <;> rcases hdk with hdk | hdk <;> simp [hk] at hdk

/-- The fencepost bits after some items were replaced. -/
theorem FenceBits.replace {old rest : List Item} (hf : FenceBits h items) (new : List Item)
    (hp : items.Perm (old ++ rest))
    (hnew : ∀ b ∈ new, isFencepost h' b.addr = decide (b.kind = .fence))
    (hrest : ∀ b ∈ rest, h'.mem b.addr = h.mem b.addr) : FenceBits h' (new ++ rest) := by
  intro b hb
  rcases List.mem_append.mp hb with hb | hb
  · exact hnew b hb
  · unfold isFencepost
    rw [hrest b hb]
    exact hf b (hp.mem_iff.mpr (by simp [hb]))

/-! ## Reading the neighbours -/

theorem Rep.nextBlock_eq (hl : Layout chunks items) (hb : b ∈ items) (hd : d ∈ items)
    (hadj : d.addr = b.addr + b.size) : nextBlock b.addr b.size = d.addr := by
  have h1 := (hl.bounds hd).2
  have h2 := hl.size_pos hd
  have h3 := (hl.size b hb).1
  unfold nextBlock
  rw [plusBytes_eq (by omega) (by omega), hadj]

theorem Rep.prevBlock_eq (hr : Rep h items) (hl : Layout chunks items) (hb : b ∈ items)
    (hd : d ∈ items) (hadj : d.addr + d.size = b.addr) : prevBlock h b.addr = d.addr := by
  have h1 := (hl.bounds hb).2
  have h2 := hl.size_pos hd
  have h3 := hl.size_pos hb
  have h4 := (hl.size d hd).1
  have ht := (hr.tagged d hd).trailer
  unfold prevBlock
  rw [wsub_eq (by omega) (by omega), ← hadj, ht, minusBytes_eq (by omega) (by omega) (by omega)]
  omega

theorem Rep.listOf_eq (hr : Rep h items) (hl : Layout chunks items) (hb : b ∈ items) :
    listOf h b.addr = getInsertionIndex (b.size - 8) := by
  have h1 := hl.size_pos hb
  have h2 := hl.bounds hb
  unfold listOf metadataTotal
  rw [(hr.tagged b hb).header, wsub_eq h1 (by omega)]

/-! ## Steps that keep the blocks in use -/

theorem reshaped_of_perm {new old rest : List Item} (hl' : Layout chunks (new ++ rest))
    (hr' : Rep h' (new ++ rest)) (hp : items.Perm (old ++ rest))
    (hold : ∀ b ∈ old, b.kind = .free ∨ b.kind = .held)
    (hnew : ∀ b ∈ new, b.kind = .free ∨ b.kind = .held)
    (hcover : ∀ x, cover Item.span new x = cover Item.span old x)
    (hframe : ∀ x, ¬ Loose items x → h'.mem x = h.mem x)
    (hout : h'.outstandingAllocatedMemory = h.outstandingAllocatedMemory)
    (hret : h'.returnsMemory = h.returnsMemory) : Reshaped chunks h items h' (new ++ rest) := by
  have hnot : ∀ l : List Item, (∀ b ∈ l, b.kind = .free ∨ b.kind = .held) → usedOf l = [] := by
    intro l hall
    refine usedOf_eq_nil fun b hb => ?_
    rcases hall b hb with hk | hk <;> simp [hk]
  refine ⟨hl', hr', ?_, ?_, hframe, hout, hret⟩
  · refine List.Perm.trans ?_ (usedOf_perm hp).symm
    rw [usedOf_append, usedOf_append, hnot new hnew, hnot old hold]
  · rintro x ⟨b, hb, hk, hx⟩
    rcases List.mem_append.mp hb with hb | hb
    · have hpos : 0 < cover Item.span old x := by
        rw [← hcover]
        exact cover_pos_of_mem Item.span hb hx
      obtain ⟨d, hd, hdx⟩ := (cover_pos_iff Item.span).mp hpos
      exact ⟨d, hp.mem_iff.mpr (by simp [hd]), hold d hd, hdx⟩
    · exact ⟨b, hp.mem_iff.mpr (by simp [hb]), hk, hx⟩

/-- A free block is taken off its list. -/
theorem unlink_reshaped (hl : Layout chunks items) (hr : Rep h items) (hb : b ∈ items)
    (hk : b.kind = .free) {i : Nat} (hi : i = listOf h b.addr) :
    Reshaped chunks h items (removeBlock h i b.addr) ({ b with kind := .held } :: items.erase b) ∧
      (FenceBits h items →
        FenceBits (removeBlock h i b.addr) ({ b with kind := .held } :: items.erase b)) := by
  have hu := removeBlock_spec hl hr hb hk (i := i) (by rw [hi, hr.listOf_eq hl hb])
  have hp : items.Perm ([b] ++ items.erase b) := List.perm_cons_erase hb
  have hbf : b.kind ≠ .fence := by simp [hk]
  have hheads : ∀ d ∈ items, (removeBlock h i b.addr).mem d.addr = h.mem d.addr :=
    fun d hd => hu.mem _ fun e he hek => (hl.tag_ne hd he (by simp [hek])).1
  refine ⟨?_, fun hf => hf.replace [{ b with kind := .held }] hp (fun d hd => ?_)
    fun d hd => hheads d (List.mem_of_mem_erase hd)⟩
  rotate_left
  · obtain rfl := List.mem_singleton.mp hd
    unfold isFencepost
    rw [hheads b hb]
    exact (hf b hb).trans (by simp [hk])
  have hl' : Layout chunks ([{ b with kind := .held }] ++ items.erase b) := by
    refine hl.replace hp (fun x => rfl) (by simpa using hbf) ?_ ?_
    · have := hl.size b hb
      simp only [List.mem_singleton, forall_eq]
      exact ⟨by simp, this.2 hbf, this.1⟩
    · simp
  refine reshaped_of_perm hl' hu.rep hp (by simp [hk]) (by simp) (fun x => rfl) (fun x hx => ?_)
    hu.outstanding hu.returnsMemory
  refine hu.mem x fun d hd hdk => ?_
  have := (hl.size d hd).2 (by simp [hdk])
  constructor <;> rintro rfl <;>
    exact hx ⟨d, hd, Or.inl hdk, by rw [inside_iff]; omega⟩

/-- A held block without free neighbours is put on its list. -/
theorem link_reshaped (hl : Layout chunks items) (hr : Rep h items) (hb : b ∈ items)
    (hk : b.kind = .held) (hnb : ∀ d ∈ items,
      d.addr = b.addr + b.size ∨ b.addr = d.addr + d.size → d.kind ≠ .free) :
    Reshaped chunks h items (linkFree h (getInsertionIndex (b.size - 8)) b.addr)
      ({ b with kind := .free } :: items.erase b) ∧
      (FenceBits h items → FenceBits (linkFree h (getInsertionIndex (b.size - 8)) b.addr)
        ({ b with kind := .free } :: items.erase b)) := by
  have hu := linkFree_spec hl hr hb hk
  have hp : items.Perm ([b] ++ items.erase b) := List.perm_cons_erase hb
  have hbf : b.kind ≠ .fence := by simp [hk]
  have hsize := hl.size b hb
  have hb16 := hsize.2 hbf
  have hl' : Layout chunks ([{ b with kind := .free }] ++ items.erase b) := by
    refine hl.replace hp (fun x => rfl) (by simpa using hbf) ?_ ?_
    · simp only [List.mem_singleton, forall_eq]
      exact ⟨by simp, hb16, hsize.1⟩
    · simp only [List.mem_singleton, forall_eq, true_and]
      intro _ d hd hdk
      have hd' := List.mem_of_mem_erase hd
      exact ⟨fun h1 => hnb d hd' (Or.inl h1) hdk, fun h1 => hnb d hd' (Or.inr h1) hdk⟩
  constructor
  · refine reshaped_of_perm hl' hu.rep hp (by simp [hk]) (by simp) (fun x => rfl) (fun x hx => ?_)
      hu.outstanding hu.returnsMemory
    refine hu.mem x (fun d hd hdk => ?_) ?_ ?_ ?_
    · have := (hl.size d hd).2 (by simp [hdk])
      rintro rfl
      exact hx ⟨d, hd, Or.inl hdk, by rw [inside_iff]; omega⟩
    all_goals
      rintro rfl
      exact hx ⟨b, hb, Or.inr hk, by rw [inside_iff]; omega⟩
  · intro hf
    refine hf.replace [{ b with kind := .free }] hp (fun d hd => ?_) fun d hd => ?_
    · obtain rfl := List.mem_singleton.mp hd
      exact hu.fence.trans ((hf b hb).trans (by simp [hk]))
    · have hd' := (hl.nodup.mem_erase_iff.mp hd)
      have h1 := hl.disjoint hd'.2 hb hd'.1
      have h2 := hl.size_pos hd'.2
      exact hu.mem _ (fun e he hek => (hl.tag_ne hd'.2 he (by simp [hek])).1.2) (by omega)
        (by omega) (by omega)

/-! ## Writing the tags of a block -/

theorem setSizeTags_mem {a s : Nat} (hs : s % 8 = 0) (hpos : 0 < s) (hend : a + s ≤ 4294967296)
    (x : Nat) : (setSizeTags h a s).mem x =
      if x = a + s - 4 then s else if x = a then withSize (h.mem a) s else h.mem x := by
  unfold setSizeTags
  rw [trailer_eq (by omega) hpos hend, write_mem, write_mem]

theorem resetFree_mem {a : Nat} (x : Nat) : (resetFree h a).mem x =
    if x = a then h.mem a &&& 4294967294
    else if x = a + 4 then 0 else if x = a + 8 then 0 else h.mem x := by
  unfold resetFree markFree Heap.setNext Heap.setPrev
  simp only [write_mem]
  split
  · simp
  · rfl

/-- Items cover what others covered, so they lie where those lay. -/
theorem Layout.inside_old {old rest : List Item} (hl : Layout chunks items)
    (hp : items.Perm (old ++ rest)) {m : Item} (hcover : cover Item.span [m] = cover Item.span old)
    {x : Nat} (hx : Inside Item.span m x) :
    (∃ o ∈ old, Inside Item.span o x) ∧ x < 4294967296 ∧ ∀ d ∈ rest, ¬ Inside Item.span d x := by
  have hpos : 0 < cover Item.span old x := by
    rw [← hcover]
    exact cover_pos_of_mem Item.span List.mem_cons_self hx
  obtain ⟨o, ho, hox⟩ := (cover_pos_iff Item.span).mp hpos
  have hoi : o ∈ items := hp.mem_iff.mpr (by simp [ho])
  refine ⟨⟨o, ho, hox⟩, ?_, fun d hd hdx => ?_⟩
  · have := (hl.bounds hoi).2
    rw [inside_iff] at hox
    omega
  · obtain rfl := hl.eq_of_inside hoi (hp.mem_iff.mpr (by simp [hd])) hox hdx
    exact (List.nodup_append.mp (hp.nodup_iff.mp hl.nodup)).2.2 o ho o hd rfl

/-- Held blocks are made one. -/
theorem remake_reshaped {old rest : List Item} (hl : Layout chunks items) (hr : Rep h items)
    (hp : items.Perm (old ++ rest)) (hold : ∀ b ∈ old, b.kind = .held) {m : Item}
    (hm : m.kind = .held) (h16 : 16 ≤ m.size) (h8 : m.size % 8 = 0)
    (hcover : cover Item.span [m] = cover Item.span old) :
    Reshaped chunks h items (resetFree (setSizeTags h m.addr m.size) m.addr) (m :: rest) ∧
      isFencepost (resetFree (setSizeTags h m.addr m.size) m.addr) m.addr =
        isFencepost h m.addr ∧
      ∀ d ∈ rest, (resetFree (setSizeTags h m.addr m.size) m.addr).mem d.addr = h.mem d.addr := by
  have hend : m.addr + m.size ≤ 4294967296 := by
    have := (hl.inside_old hp hcover (x := m.addr + m.size - 1)
      (by rw [inside_iff]; omega)).2.1
    omega
  have hstart : 0 < m.addr := by
    obtain ⟨⟨o, ho, hox⟩, -⟩ := hl.inside_old hp hcover (x := m.addr) (by rw [inside_iff]; omega)
    have := (hl.bounds (hp.mem_iff.mpr (List.mem_append_left rest ho))).1
    rw [inside_iff] at hox
    omega
  have hhead : (setSizeTags h m.addr m.size).mem m.addr = withSize (h.mem m.addr) m.size := by
    rw [setSizeTags_mem h8 (by omega) hend, if_neg (by omega), if_pos rfl]
  have hmem : ∀ x, (resetFree (setSizeTags h m.addr m.size) m.addr).mem x =
      if x = m.addr then withSize (h.mem m.addr) m.size &&& 4294967294
      else if x = m.addr + 4 then 0 else if x = m.addr + 8 then 0
      else if x = m.addr + m.size - 4 then m.size else h.mem x := by
    intro x
    rw [resetFree_mem, hhead, setSizeTags_mem h8 (by omega) hend]
    split
    · rfl
    · rfl
  have hframe : ∀ x, ¬ Inside Item.span m x →
      (resetFree (setSizeTags h m.addr m.size) m.addr).mem x = h.mem x := by
    intro x hx
    rw [inside_iff] at hx
    rw [hmem, if_neg (by omega), if_neg (by omega), if_neg (by omega), if_neg (by omega)]
  have hrest : ∀ d ∈ rest, ∀ x, Inside Item.span d x →
      (resetFree (setSizeTags h m.addr m.size) m.addr).mem x = h.mem x :=
    fun d hd x hx => hframe x fun hmx => (hl.inside_old hp hcover hmx).2.2 d hd hx
  have htag : Tagged (resetFree (setSizeTags h m.addr m.size) m.addr) m := by
    refine ⟨?_, ?_, fun hne => absurd hm hne⟩
    · unfold getSize
      rw [hmem, if_pos rfl, sizeBits_and_freeMask, sizeBits_withSize h8 (by omega)]
    · rw [hmem, if_neg (by omega), if_neg (by omega), if_neg (by omega), if_pos rfl]
  have hl' : Layout chunks ([m] ++ rest) := by
    refine hl.replace hp (fun x => congrFun hcover x) (fun b hb => by simp [hold b hb]) ?_ ?_
    · simp only [List.mem_singleton, forall_eq]
      exact ⟨by simp [hm], h16, h8⟩
    · simp [hm]
  have hr' : Rep (resetFree (setSizeTags h m.addr m.size) m.addr) ([m] ++ rest) := by
    refine hr.retag hl hp (fun b hb => by simp [hold b hb]) ?_ hrest (fun a => ?_) rfl rfl
    · simp only [List.mem_singleton, forall_eq]
      exact ⟨by simp [hm], htag⟩
    · have := hr.words a
      rw [hmem]
      split
      · exact lt_of_le_of_lt Nat.and_le_right (by decide)
      · split
        · omega
        · split
          · omega
          · split
            · omega
            · exact this
  refine ⟨?_, ?_, fun d hd => hrest d hd _ ?_⟩
  · refine reshaped_of_perm hl' hr' hp (fun b hb => Or.inr (hold b hb)) (by simp [hm])
      (fun x => congrFun hcover x) (fun x hx => hframe x fun hmx => hx ?_) rfl rfl
    obtain ⟨⟨o, ho, hox⟩, -⟩ := hl.inside_old hp hcover hmx
    exact ⟨o, hp.mem_iff.mpr (by simp [ho]), Or.inr (hold o ho), hox⟩
  · unfold isFencepost
    rw [hmem, if_pos rfl, (flags_and_freeMask _).2, fencepostBit_withSize h8]
  · have := hl.size_pos (hp.mem_iff.mpr (show d ∈ old ++ rest by simp [hd]))
    rw [inside_iff]
    omega

/-! ## `AddBlock` -/

/-- Between two items in use a block is put on its list as it is. -/
theorem addBlock_linked (hl : Layout chunks items) (hr : Rep h items) (hb : b ∈ items)
    (hk : b.kind = .held) (hnb : ∀ d ∈ items, d.addr = b.addr + b.size ∨
      b.addr = d.addr + d.size → d.kind ≠ .free ∧ d.kind ≠ .held) (fuel : Nat) :
    addBlock (fuel + 1) h b.addr =
      .ok (linkFree h (getInsertionIndex (b.size - 8)) b.addr, b.addr) := by
  have hbf : b.kind ≠ .fence := by simp [hk]
  obtain ⟨n, hn, hna⟩ := hl.next hb hbf
  obtain ⟨p, hp, hpa⟩ := hl.prev hb hbf
  have hnk := hnb n hn (Or.inl hna)
  have hpk := hnb p hp (Or.inr hpa.symm)
  have hnal := (hr.tagged n hn).allocated hnk.2
  have hpal := (hr.tagged p hp).allocated hpk.2
  have hlist := hr.listOf_eq hl hb
  unfold listOf at hlist
  unfold addBlock
  simp only [(hr.tagged b hb).header] at hlist ⊢
  rw [hr.prevBlock_eq hl hb hp hpa, Rep.nextBlock_eq hl hb hn hna, hpal, hnal, hlist]
  simp [hnk.1, hpk.1]

/-- What `AddBlock` leaves: the block is in the free block `r`, and none is held. -/
structure Returned (chunks : List Chunk) (h : Heap) (items : List Item) (b : Item) (h' : Heap)
    (items' : List Item) (r : Nat) : Prop where
  reshaped : Reshaped chunks h items h' items'
  noHeld : ∀ d ∈ items', d.kind ≠ .held
  fence : FenceBits h items → FenceBits h' items'
  found : ∃ f ∈ items', f.kind = .free ∧ f.addr = r ∧ f.addr ≤ b.addr ∧
    b.addr + b.size ≤ f.addr + f.size

theorem addBlock_linked_spec (hl : Layout chunks items) (hr : Rep h items) (hb : b ∈ items)
    (hk : b.kind = .held) (honly : ∀ d ∈ items, d.kind = .held → d = b)
    (hnb : ∀ d ∈ items, d.addr = b.addr + b.size ∨ b.addr = d.addr + d.size → d.kind ≠ .free)
    (fuel : Nat) : ∃ h', addBlock (fuel + 1) h b.addr = .ok (h', b.addr) ∧
      Returned chunks h items b h' ({ b with kind := .free } :: items.erase b) b.addr := by
  have hself : ∀ d ∈ items, d.addr = b.addr + b.size ∨ b.addr = d.addr + d.size → d ≠ b := by
    rintro d hd hadj rfl
    have := hl.size_pos hd
    omega
  refine ⟨_, addBlock_linked hl hr hb hk (fun d hd hadj => ⟨hnb d hd hadj, fun hdk =>
    hself d hd hadj (honly d hd hdk)⟩) fuel, ?_⟩
  obtain ⟨h1, h2⟩ := link_reshaped hl hr hb hk hnb
  refine ⟨h1, fun d hd => ?_, h2, _, List.mem_cons_self, rfl, rfl, Nat.le_refl _, Nat.le_refl _⟩
  rcases List.mem_cons.mp hd with rfl | hd
  · simp
  · intro hdk
    obtain ⟨hne, hd⟩ := hl.nodup.mem_erase_iff.mp hd
    exact hne (honly d hd hdk)

/-- Held neighbours are made one block, which is then put on its list. -/
theorem addBlock_joined {old rest : List Item} (hl : Layout chunks items) (hr : Rep h items)
    (hp : items.Perm (old ++ rest)) (hold : ∀ b ∈ old, b.kind = .held) {m : Item}
    (hm : m.kind = .held) (h16 : 16 ≤ m.size) (h8 : m.size % 8 = 0)
    (hcover : cover Item.span [m] = cover Item.span old)
    (hrest : ∀ d ∈ rest, d.kind ≠ .held)
    (hfirst : ∃ o ∈ old, o.addr = m.addr)
    (hnb : ∀ d ∈ rest, d.addr = m.addr + m.size ∨ m.addr = d.addr + d.size → d.kind ≠ .free)
    (fuel : Nat) : ∃ h' items',
      addBlock (fuel + 1) (resetFree (setSizeTags h m.addr m.size) m.addr) m.addr =
        .ok (h', m.addr) ∧ Returned chunks h items m h' items' m.addr := by
  obtain ⟨h1, h2, h3⟩ := remake_reshaped hl hr hp hold hm h16 h8 hcover
  have hmr : m ∉ rest := fun hmr => hrest m hmr hm
  obtain ⟨h', hadd, hret⟩ := addBlock_linked_spec h1.layout h1.rep (b := m) (by simp) hm
    (fun d hd hdk => by
      rcases List.mem_cons.mp hd with rfl | hd
      · rfl
      · exact absurd hdk (hrest d hd))
    (fun d hd hadj => by
      rcases List.mem_cons.mp hd with rfl | hd
      · simp [hm]
      · exact hnb d hd hadj) fuel
  refine ⟨h', _, hadd, h1.trans hret.reshaped, hret.noHeld, fun hf => hret.fence ?_, hret.found⟩
  refine hf.replace [m] hp (fun d hd => ?_) h3
  obtain rfl := List.mem_singleton.mp hd
  obtain ⟨o, ho, hoa⟩ := hfirst
  rw [h2, ← hoa, hf o (hp.mem_iff.mpr (by simp [ho])), hold o ho, hm]

/-- Joining with the block on the right. -/
theorem join_right (fuel : Nat) {n p : Item} (hl : Layout chunks items) (hr : Rep h items)
    (hb : b ∈ items) (hk : b.kind = .held) (honly : ∀ d ∈ items, d.kind = .held → d = b)
    (hn : n ∈ items) (hnk : n.kind = .free) (hna : n.addr = b.addr + b.size) (hp : p ∈ items)
    (hpk : p.kind ≠ .free) (hpa : p.addr + p.size = b.addr) : ∃ h' items',
      addBlock (fuel + 1) (resetFree (setSizeTags (removeBlock h (listOf h n.addr) n.addr) b.addr
        (wadd b.size (getSize (removeBlock h (listOf h n.addr) n.addr) n.addr))) b.addr) b.addr =
        .ok (h', b.addr) ∧ Returned chunks h items b h' items' b.addr := by
  obtain ⟨hu, huf⟩ := unlink_reshaped hl hr hn hnk (i := listOf h n.addr) rfl
  have hbn : b ≠ n := fun hbn => by simp [hbn, hnk] at hk
  have hbe : b ∈ items.erase n := (hl.nodup.mem_erase_iff).mpr ⟨hbn, hb⟩
  have hperm : ({ n with kind := .held } :: items.erase n).Perm
      ([b, { n with kind := .held }] ++ (items.erase n).erase b) :=
    ((List.perm_cons_erase hbe).cons _).trans (List.Perm.swap ..)
  have hrest : ∀ d ∈ (items.erase n).erase b, d ∈ items ∧ d ≠ b ∧ d ≠ n := by
    intro d hd
    obtain ⟨h1, h2⟩ := (hl.nodup.erase n).mem_erase_iff.mp hd
    obtain ⟨h3, h4⟩ := hl.nodup.mem_erase_iff.mp h2
    exact ⟨h4, h1, h3⟩
  have hnsize := hl.size n hn
  have hbsize := hl.size b hb
  have hb16 := hbsize.2 (by simp [hk])
  have hnend := (hl.bounds hn).2
  have hbpos := (hl.bounds hb).1
  have hsize : getSize (removeBlock h (listOf h n.addr) n.addr) n.addr = n.size :=
    (hu.rep.tagged _ List.mem_cons_self).header
  have hnb : ∀ d ∈ (items.erase n).erase b, d.addr = b.addr + (b.size + n.size) ∨
      b.addr = d.addr + d.size → d.kind ≠ .free := by
    intro d hd hadj hdk
    obtain ⟨hdi, -, -⟩ := hrest d hd
    rcases hadj with hadj | hadj
    · exact hl.apart n hn d hdi hnk hdk (by omega)
    · obtain rfl := hl.eq_of_end hdi hp (by omega)
      exact hpk hdk
  rw [hsize, wadd_eq (by omega)]
  obtain ⟨h', items', hadd, hret⟩ := addBlock_joined hu.layout hu.rep hperm
    (m := ⟨b.addr, b.size + n.size, .held⟩) (by simp [hk]) rfl (by simp only; omega)
    (by simp only; omega) (funext fun x => by
      simp only [cover_cons, cover_nil, Item.span, hna]
      rw [hit_split (b := b.addr + b.size) (by omega) (by omega) x,
        show b.addr + (b.size + n.size) = b.addr + b.size + n.size by omega]
      rfl)
    (fun d hd hdk => (hrest d hd).2.1 (honly d (hrest d hd).1 hdk)) ⟨b, by simp, rfl⟩
    hnb fuel
  obtain ⟨f, hf, hfk, hfr, hf1, hf2⟩ := hret.found
  simp only at hf1 hf2
  exact ⟨h', items', hadd, hu.trans hret.reshaped, hret.noHeld, fun hfe => hret.fence (huf hfe),
    f, hf, hfk, hfr, hf1, by omega⟩

/-- Joining with the block on the left. -/
theorem join_left (fuel : Nat) {n p : Item} (hl : Layout chunks items) (hr : Rep h items)
    (hb : b ∈ items) (hk : b.kind = .held) (honly : ∀ d ∈ items, d.kind = .held → d = b)
    (hn : n ∈ items) (hnk : n.kind ≠ .free) (hna : n.addr = b.addr + b.size) (hp : p ∈ items)
    (hpk : p.kind = .free) (hpa : p.addr + p.size = b.addr) : ∃ h' items',
      addBlock (fuel + 1) (resetFree (setSizeTags (removeBlock h (listOf h p.addr) p.addr) p.addr
        (wadd b.size (getSize (removeBlock h (listOf h p.addr) p.addr) p.addr))) p.addr) p.addr =
        .ok (h', p.addr) ∧ Returned chunks h items b h' items' p.addr := by
  obtain ⟨hu, huf⟩ := unlink_reshaped hl hr hp hpk (i := listOf h p.addr) rfl
  have hbp : b ≠ p := fun hbp => by simp [hbp, hpk] at hk
  have hbe : b ∈ items.erase p := (hl.nodup.mem_erase_iff).mpr ⟨hbp, hb⟩
  have hperm : ({ p with kind := .held } :: items.erase p).Perm
      ([{ p with kind := .held }, b] ++ (items.erase p).erase b) :=
    (List.perm_cons_erase hbe).cons _
  have hrest : ∀ d ∈ (items.erase p).erase b, d ∈ items ∧ d ≠ b := by
    intro d hd
    obtain ⟨h1, h2⟩ := (hl.nodup.erase p).mem_erase_iff.mp hd
    exact ⟨List.mem_of_mem_erase h2, h1⟩
  have hpsize := hl.size p hp
  have hp16 := hpsize.2 (by simp [hpk])
  have hbsize := hl.size b hb
  have hbend := (hl.bounds hb).2
  have hppos := (hl.bounds hp).1
  have hsize : getSize (removeBlock h (listOf h p.addr) p.addr) p.addr = p.size :=
    (hu.rep.tagged _ List.mem_cons_self).header
  have hnb : ∀ d ∈ (items.erase p).erase b, d.addr = p.addr + (b.size + p.size) ∨
      p.addr = d.addr + d.size → d.kind ≠ .free := by
    intro d hd hadj hdk
    obtain ⟨hdi, -⟩ := hrest d hd
    rcases hadj with hadj | hadj
    · obtain rfl := hl.eq_of_addr hdi hn (by omega)
      exact hnk hdk
    · exact hl.apart d hdi p hp hdk hpk hadj
  rw [hsize, wadd_eq (by omega)]
  obtain ⟨h', items', hadd, hret⟩ := addBlock_joined hu.layout hu.rep hperm
    (m := ⟨p.addr, b.size + p.size, .held⟩) (by simp [hk]) rfl (by simp only; omega)
    (by simp only; omega) (funext fun x => by
      simp only [cover_cons, cover_nil, Item.span, ← hpa]
      rw [hit_split (b := p.addr + p.size) (by omega) (by omega) x,
        show p.addr + (b.size + p.size) = p.addr + p.size + b.size by omega]
      rfl)
    (fun d hd hdk => (hrest d hd).2 (honly d (hrest d hd).1 hdk)) ⟨_, List.mem_cons_self, rfl⟩
    hnb fuel
  obtain ⟨f, hf, hfk, hfr, hf1, hf2⟩ := hret.found
  simp only at hf1 hf2
  exact ⟨h', items', hadd, hu.trans hret.reshaped, hret.noHeld, fun hfe => hret.fence (huf hfe),
    f, hf, hfk, hfr, by omega, by omega⟩

/-- Joining with the blocks on both sides. -/
theorem join_both (fuel : Nat) {n p : Item} (hl : Layout chunks items) (hr : Rep h items)
    (hb : b ∈ items) (hk : b.kind = .held) (honly : ∀ d ∈ items, d.kind = .held → d = b)
    (hn : n ∈ items) (hnk : n.kind = .free) (hna : n.addr = b.addr + b.size) (hp : p ∈ items)
    (hpk : p.kind = .free) (hpa : p.addr + p.size = b.addr) {h1 h2 : Heap}
    (hh1 : h1 = removeBlock h (listOf h p.addr) p.addr)
    (hh2 : h2 = removeBlock h1 (listOf h1 n.addr) n.addr) : ∃ h' items',
      addBlock (fuel + 1) (resetFree (setSizeTags h2 p.addr
        (wadd (wadd b.size (getSize h2 p.addr)) (getSize h2 n.addr))) p.addr) p.addr =
        .ok (h', p.addr) ∧ Returned chunks h items b h' items' p.addr := by
  obtain ⟨hu, huf⟩ := unlink_reshaped hl hr hp hpk (i := listOf h p.addr) rfl
  rw [← hh1] at hu huf
  have hbp : b ≠ p := fun hbp => by simp [hbp, hpk] at hk
  have hbn : b ≠ n := fun hbn => by simp [hbn, hnk] at hk
  have hnp : n ≠ p := by
    rintro rfl
    have := hl.size_pos hb
    have := hl.size_pos hn
    omega
  have hnp' : n ≠ { p with kind := .held } := fun heq => by
    have := congrArg Item.kind heq
    simp [hnk] at this
  have hne : n ∈ items.erase p := (hl.nodup.mem_erase_iff).mpr ⟨hnp, hn⟩
  have hbe : b ∈ (items.erase p).erase n :=
    (hl.nodup.erase p).mem_erase_iff.mpr ⟨hbn, hl.nodup.mem_erase_iff.mpr ⟨hbp, hb⟩⟩
  obtain ⟨hv, hvf⟩ := unlink_reshaped hu.layout hu.rep (List.mem_cons_of_mem _ hne) hnk
    (i := listOf h1 n.addr) rfl
  rw [← hh2, List.erase_cons_tail (by simpa using Ne.symm hnp')] at hv hvf
  have hperm : ({ n with kind := .held } :: { p with kind := .held } ::
      (items.erase p).erase n).Perm ([{ p with kind := .held }, b, { n with kind := .held }] ++
      ((items.erase p).erase n).erase b) := by
    refine (List.Perm.swap ..).trans (List.Perm.cons _ ?_)
    exact ((List.perm_cons_erase hbe).cons _).trans (List.Perm.swap ..)
  have hrest : ∀ d ∈ ((items.erase p).erase n).erase b, d ∈ items ∧ d ≠ b := by
    intro d hd
    obtain ⟨h3, h4⟩ := ((hl.nodup.erase p).erase n).mem_erase_iff.mp hd
    exact ⟨List.mem_of_mem_erase (List.mem_of_mem_erase h4), h3⟩
  have hpsize := hl.size p hp
  have hp16 := hpsize.2 (by simp [hpk])
  have hbsize := hl.size b hb
  have hnsize := hl.size n hn
  have hnend := (hl.bounds hn).2
  have hppos := (hl.bounds hp).1
  have hsizen : getSize h2 n.addr = n.size := (hv.rep.tagged _ List.mem_cons_self).header
  have hsizep : getSize h2 p.addr = p.size :=
    (hv.rep.tagged _ (List.mem_cons_of_mem _ List.mem_cons_self)).header
  have hnb : ∀ d ∈ ((items.erase p).erase n).erase b,
      d.addr = p.addr + (b.size + p.size + n.size) ∨ p.addr = d.addr + d.size →
      d.kind ≠ .free := by
    intro d hd hadj hdk
    obtain ⟨hdi, -⟩ := hrest d hd
    rcases hadj with hadj | hadj
    · exact hl.apart n hn d hdi hnk hdk (by omega)
    · exact hl.apart d hdi p hp hdk hpk hadj
  rw [hsizen, hsizep, wadd_eq (a := b.size) (by omega), wadd_eq (by omega)]
  obtain ⟨h', items', hadd, hret⟩ := addBlock_joined hv.layout hv.rep hperm
    (m := ⟨p.addr, b.size + p.size + n.size, .held⟩) (by simp [hk]) rfl (by simp only; omega)
    (by simp only; omega) (funext fun x => by
      simp only [cover_cons, cover_nil, Item.span, hna, ← hpa]
      rw [hit_split (b := p.addr + p.size) (by omega) (by omega) x,
        hit_split (a := p.addr + p.size) (b := p.addr + p.size + b.size) (by omega) (by omega) x,
        show p.addr + (b.size + p.size + n.size) = p.addr + p.size + b.size + n.size by omega]
      rfl)
    (fun d hd hdk => (hrest d hd).2 (honly d (hrest d hd).1 hdk)) ⟨_, List.mem_cons_self, rfl⟩
    hnb fuel
  obtain ⟨f, hf, hfk, hfr, hf1, hf2⟩ := hret.found
  simp only at hf1 hf2
  exact ⟨h', items', hadd, (hu.trans hv).trans hret.reshaped, hret.noHeld,
    fun hfe => hret.fence (hvf (huf hfe)), f, hf, hfk, hfr, by omega, by omega⟩

/-- `AddBlock` returns, and leaves the block on its list, joined with its free neighbours. -/
theorem addBlock_spec (hl : Layout chunks items) (hr : Rep h items) (hb : b ∈ items)
    (hk : b.kind = .held) (honly : ∀ d ∈ items, d.kind = .held → d = b) {fuel : Nat}
    (hfuel : 2 ≤ fuel) : ∃ h' r items', addBlock fuel h b.addr = .ok (h', r) ∧
      Returned chunks h items b h' items' r := by
  obtain ⟨fuel, rfl⟩ : ∃ f, fuel = f + 2 := ⟨fuel - 2, by omega⟩
  have hbf : b.kind ≠ .fence := by simp [hk]
  obtain ⟨n, hn, hna⟩ := hl.next hb hbf
  obtain ⟨p, hp, hpa⟩ := hl.prev hb hbf
  have hnh : n.kind ≠ .held := fun hnk => by
    have := hl.size_pos hb
    have := congrArg Item.addr (honly n hn hnk)
    omega
  have hph : p.kind ≠ .held := fun hpk => by
    have := hl.size_pos hp
    have := congrArg Item.addr (honly p hp hpk)
    omega
  have hnal := (hr.tagged n hn).allocated hnh
  have hpal := (hr.tagged p hp).allocated hph
  have hsize := (hr.tagged b hb).header
  by_cases hpk : p.kind = .free <;> by_cases hnk : n.kind = .free
  · obtain ⟨h', items', hadd, hret⟩ := join_both fuel hl hr hb hk honly hn hnk hna hp hpk
      hpa rfl rfl
    refine ⟨h', _, items', ?_, hret⟩
    rw [← hadd, addBlock]
    simp only [hsize, hr.prevBlock_eq hl hb hp hpa, Rep.nextBlock_eq hl hb hn hna, hpal, hnal]
    simp [hpk, hnk]
  · obtain ⟨h', items', hadd, hret⟩ := join_left fuel hl hr hb hk honly hn hnk hna hp hpk
      hpa
    refine ⟨h', _, items', ?_, hret⟩
    rw [← hadd, addBlock]
    simp only [hsize, hr.prevBlock_eq hl hb hp hpa, Rep.nextBlock_eq hl hb hn hna, hpal, hnal]
    simp [hpk, hnk]
  · obtain ⟨h', items', hadd, hret⟩ := join_right fuel hl hr hb hk honly hn hnk hna hp hpk
      hpa
    refine ⟨h', _, items', ?_, hret⟩
    rw [← hadd, addBlock]
    simp only [hsize, hr.prevBlock_eq hl hb hp hpa, Rep.nextBlock_eq hl hb hn hna, hpal, hnal]
    simp [hpk, hnk]
  · obtain ⟨h', hadd, hret⟩ := addBlock_linked_spec hl hr hb hk honly (fun d hd hadj => by
      rcases hadj with hadj | hadj
      · obtain rfl := hl.eq_of_addr hd hn (by omega)
        exact hnk
      · obtain rfl := hl.eq_of_end hd hp (by omega)
        exact hpk) (fuel + 1)
    exact ⟨h', _, _, hadd, hret⟩

end Nolrem.Mem
