import Nolrem.Lib.Transition
import Nolrem.Mem.Calls

/-!
# Runs of the heap

Callers allocate, resize and free blocks and write into the payloads they hold; memory that the
heap does not have may change at any time.
-/

namespace Nolrem.Mem

open Nolrem.Lib

/-- The heap, what `get_memory` knows, and the pointers that callers hold. -/
structure HeapState (σ : Type) where
  env : σ
  heap : Heap
  live : List Nat

inductive Call where
  | alloc (size : Nat)
  | free (ptr : Nat)
  | realloc (ptr newSize : Nat)
  /-- A caller writes a word of a payload. -/
  | write (ptr index value : Nat)
  /-- A word that is not in the heap changes. -/
  | outside (addr value : Nat)
deriving DecidableEq, Repr

section Step

variable {σ : Type}

/-- The state after a call and the pointer that it returns. -/
def Call.run (getMemory : GetMemory σ) (fuel : Nat) :
    Call → HeapState σ → Except Fault (HeapState σ × Nat)
  | .alloc size, s => do
    let (e, h, ptr) ← allocHeapEx getMemory fuel s.env s.heap size
    .ok (⟨e, h, if ptr = 0 then s.live else ptr :: s.live⟩, ptr)
  | .free ptr, s => do
    let h ← freeHeapEx fuel s.heap ptr
    .ok ({ s with heap := h, live := s.live.erase ptr }, 0)
  | .realloc ptr newSize, s => do
    let (e, h, newPtr) ← reallocHeapEx getMemory fuel s.env s.heap ptr newSize
    .ok (⟨e, h, if newPtr = 0 then s.live else newPtr :: s.live.erase ptr⟩, newPtr)
  | .write ptr index value, s => .ok ({ s with heap := s.heap.write (ptr + 4 * index) value }, 0)
  | .outside addr value, s => .ok ({ s with heap := s.heap.write addr value }, 0)

/-- The bytes a live pointer may be used for. -/
def payloadSize (h : Heap) (ptr : Nat) : Nat := wsub (getSize h (wsub ptr 4)) metadataTotal

/-- What callers may do; no size computation wraps for sizes of at most `SIZE_MAX - 31`. -/
def Call.Allowed (given : σ → List Chunk) : Call → HeapState σ → Prop
  | .alloc size, _ => size ≤ 4294967264
  | .free ptr, s => ptr = 0 ∨ ptr ∈ s.live
  | .realloc ptr newSize, s => (ptr = 0 ∨ ptr ∈ s.live) ∧ newSize ≤ 4294967264
  | .write ptr index value, s =>
    ptr ∈ s.live ∧ 4 * index + 4 ≤ payloadSize s.heap ptr ∧ value < 4294967296
  | .outside addr value, s =>
    (∀ c ∈ given s.env, ¬ Inside Chunk.span c addr) ∧ value < 4294967296

/-- Bit 1 is clear in the words that become headers of blocks in this call. -/
def Call.Clean (getMemory : GetMemory σ) (fuel : Nat) : Call → HeapState σ → Prop
  | .alloc size, s => size ≠ 0 → CleanTake getMemory fuel s.env s.heap (roundUpSize size)
  | .realloc ptr newSize, s =>
    newSize ≠ 0 → (ptr ≠ 0 → payloadSize s.heap ptr < newSize) →
      CleanTake getMemory fuel s.env s.heap (roundUpSize newSize)
  | _, _ => True

def Step (getMemory : GetMemory σ) (given : σ → List Chunk) (fuel : Nat)
    (s s' : HeapState σ) : Prop :=
  ∃ (call : Call) (ptr : Nat), call.Allowed given s ∧ call.run getMemory fuel s = .ok (s', ptr)

variable {getMemory : GetMemory σ} {given : σ → List Chunk} {fuel : Nat} {s : HeapState σ}
  {items : List Item}

/-- Every allowed call returns, and the heap is in order again. -/
structure Served (getMemory : GetMemory σ) (given : σ → List Chunk) (fuel : Nat) (call : Call)
    (s : HeapState σ) (items : List Item) (s' : HeapState σ) (ptr : Nat) (items' : List Item) :
    Prop where
  run : call.run getMemory fuel s = .ok (s', ptr)
  ready : Ready s'.heap (given s'.env) s'.live items'
  fence : FenceBits s.heap items → call.Clean getMemory fuel s → FenceBits s'.heap items'

theorem alloc_served (hg : GivesFresh getMemory given) (hfuel : 4294967296 < fuel)
    (hr : Ready s.heap (given s.env) s.live items) {size : Nat} (hle : size ≤ 4294967264) :
    ∃ s' ptr items', Served getMemory given fuel (.alloc size) s items s' ptr items' := by
  obtain ⟨e, h, ptr, items', halloc, hres, hfe⟩ := allocHeapEx_spec hg hr hle hfuel
  refine ⟨⟨e, h, if ptr = 0 then s.live else ptr :: s.live⟩, ptr, items', ?_, ?_, hfe⟩
  · show (allocHeapEx getMemory fuel s.env s.heap size).bind _ = _
    rw [halloc]
    rfl
  · rcases hres with ⟨rfl, rfl, rfl, hgiven⟩ | ⟨h0, hgr⟩
    · show Ready s.heap (given e) s.live items'
      rw [hgiven]
      exact hr
    · simp only [if_neg h0]
      exact hgr.ready

/-- `NULL` is not a pointer to a block. -/
theorem Ready.zero_not_live {h : Heap} {chunks : List Chunk} {live : List Nat}
    (hr : Ready h chunks live items) : 0 ∉ live := by
  intro h0
  obtain ⟨u, -, -, hu, -⟩ := hr.block_of_live h0
  omega

theorem free_served (hfuel : 4294967296 < fuel)
    (hr : Ready s.heap (given s.env) s.live items) {ptr : Nat} (hp : ptr = 0 ∨ ptr ∈ s.live) :
    ∃ s' r items', Served getMemory given fuel (.free ptr) s items s' r items' := by
  by_cases h0 : ptr = 0
  · refine ⟨s, 0, items, ?_, hr, fun hf _ => hf⟩
    subst h0
    simp only [Call.run, freeHeapEx, if_true, bind, Except.bind,
      List.erase_of_not_mem hr.zero_not_live]
  · obtain ⟨h', items', hfree, hfreed⟩ := freeHeapEx_spec hr
      (hp.resolve_left h0) (show 2 ≤ fuel by omega)
    refine ⟨{ s with heap := h', live := s.live.erase ptr }, 0, items', ?_, hfreed.ready,
      fun hf _ => hfreed.fence hf⟩
    show (freeHeapEx fuel s.heap ptr).bind _ = _
    rw [hfree]
    rfl

/-- The payload that the code reads off a live pointer. -/
theorem Ready.payloadSize_eq {h : Heap} {chunks : List Chunk} {live : List Nat}
    (hr : Ready h chunks live items) {u : Item} (hu : u ∈ items) (huk : u.kind = .used) :
    payloadSize h (payloadOf u) = u.size - 8 := by
  have h1 := (hr.layout.size u hu).2 (by simp [huk])
  have h2 := hr.layout.bounds hu
  have hsub : wsub (payloadOf u) 4 = u.addr := by
    unfold payloadOf
    rw [wsub_eq (by omega) (by omega), Nat.add_sub_cancel]
  unfold payloadSize
  rw [hsub, (hr.rep.tagged u hu).header]
  exact wsub_eq (by unfold metadataTotal; omega) (by omega)

theorem realloc_served (hg : GivesFresh getMemory given) (hfuel : 4294967296 < fuel)
    (hr : Ready s.heap (given s.env) s.live items) {ptr newSize : Nat}
    (hp : ptr = 0 ∨ ptr ∈ s.live) (hle : newSize ≤ 4294967264) :
    ∃ s' r items', Served getMemory given fuel (.realloc ptr newSize) s items s' r items' := by
  by_cases h0 : ptr = 0
  · subst h0
    obtain ⟨s', r, items', hrun, hready, hfe⟩ := alloc_served hg hfuel hr hle
    refine ⟨s', r, items', ?_, hready, fun hf hc => hfe hf fun hn => hc hn (by simp)⟩
    show (reallocHeapEx getMemory fuel s.env s.heap 0 newSize).bind _ = _
    rw [reallocHeapEx, if_pos rfl, List.erase_of_not_mem hr.zero_not_live]
    exact hrun
  obtain ⟨u, hu, huk, rfl, hsub⟩ := hr.block_of_live (hp.resolve_left h0)
  obtain ⟨e, h, r, items', hre, hres, hfe⟩ := reallocHeapEx_spec hg hr hu huk hle hfuel
  refine ⟨⟨e, h, if r = 0 then s.live else r :: s.live.erase (u.addr + 4)⟩, r, items', ?_, ?_,
    fun hf hc => hfe hf fun hlt => hc (by omega) fun _ => ?_⟩
  · show (reallocHeapEx getMemory fuel s.env s.heap (payloadOf u) newSize).bind _ = _
    rw [hre]
    rfl
  · rcases hres with ⟨hor, rfl, rfl, hgiven⟩ | ⟨hr0, hmoved⟩
    · have hlive : (if r = 0 then s.live else r :: s.live.erase (u.addr + 4)).Perm s.live := by
        rcases hor with rfl | ⟨rfl, -⟩
        · exact List.Perm.refl _
        · rw [if_neg (show payloadOf u ≠ 0 from h0)]
          exact (List.perm_cons_erase (hp.resolve_left h0)).symm
      show Ready s.heap (given e) _ items'
      rw [hgiven]
      exact ⟨hr.layout, hr.rep, hr.settled, hlive.trans hr.live, hr.outstanding⟩
    · simp only [if_neg hr0]
      exact hmoved.ready
  · show payloadSize s.heap (payloadOf u) < newSize
    rw [hr.payloadSize_eq hu huk]
    exact hlt

theorem write_served (hr : Ready s.heap (given s.env) s.live items) {ptr index value : Nat}
    (hp : ptr ∈ s.live) (hi : 4 * index + 4 ≤ payloadSize s.heap ptr)
    (hv : value < 4294967296) :
    ∃ s' r items', Served getMemory given fuel (.write ptr index value) s items s' r items' := by
  obtain ⟨u, hu, huk, rfl, hsub⟩ := hr.block_of_live hp
  have hsize := hr.payloadSize_eq hu huk
  have h16 := (hr.layout.size u hu).2 (by simp [huk])
  unfold payloadOf at hsize
  have hmem : ∀ x, (s.heap.write (u.addr + 4 + 4 * index) value).mem x =
      if x = u.addr + 4 + 4 * index then value else s.heap.mem x := fun x => write_mem x
  have hword : ∀ x, (s.heap.write (u.addr + 4 + 4 * index) value).mem x < 4294967296 := by
    intro x
    have := hr.rep.words x
    rw [hmem]
    split_ifs <;> omega
  obtain ⟨h1, h2⟩ := hr.of_payload hu huk (fun x hx => by rw [hmem, if_neg (by omega)]) hword
    rfl rfl rfl
  exact ⟨_, 0, items, rfl, h1, fun hf _ => h2 hf⟩

theorem outside_served (hr : Ready s.heap (given s.env) s.live items) {addr value : Nat}
    (ha : ∀ c ∈ given s.env, ¬ Inside Chunk.span c addr) (hv : value < 4294967296) :
    ∃ s' r items', Served getMemory given fuel (.outside addr value) s items s' r items' := by
  have hne : ∀ b ∈ items, ∀ x, Inside Item.span b x → x ≠ addr := by
    rintro b hb x hx rfl
    obtain ⟨c, hc, h1, h2, -⟩ := hr.layout.in_chunk hb
    refine ha c hc ?_
    simp only [Inside, Item.span, Chunk.span] at hx ⊢
    omega
  have hmem : ∀ b ∈ items, ∀ x, Inside Item.span b x →
      (s.heap.write addr value).mem x = s.heap.mem x :=
    fun b hb x hx => write_mem_ne (hne b hb x hx)
  have hrep : Rep (s.heap.write addr value) ([] ++ items) := by
    refine hr.rep.retag hr.layout (show items.Perm ([] ++ items) from List.Perm.refl _) (by simp)
      (by simp) hmem (fun x => ?_) rfl rfl
    have := hr.rep.words x
    rw [write_mem]
    split_ifs <;> omega
  refine ⟨{ s with heap := s.heap.write addr value }, 0, items, rfl,
    ⟨hr.layout, hrep, hr.settled, hr.live, hr.outstanding⟩, fun hf _ b hb => ?_⟩
  have hpos := hr.layout.size_pos hb
  unfold isFencepost
  rw [hmem b hb b.addr (by rw [inside_iff]; omega)]
  exact hf b hb

theorem call_served (hg : GivesFresh getMemory given) (hfuel : 4294967296 < fuel)
    (hr : Ready s.heap (given s.env) s.live items) {call : Call} (ha : call.Allowed given s) :
    ∃ s' ptr items', Served getMemory given fuel call s items s' ptr items' := by
  cases call with
  | alloc size => exact alloc_served hg hfuel hr ha
  | free ptr => exact free_served hfuel hr ha
  | realloc ptr newSize => exact realloc_served hg hfuel hr ha.1 ha.2
  | write ptr index value => exact write_served hr ha.1 ha.2.1 ha.2.2
  | outside addr value => exact outside_served hr ha.1 ha.2

/-- The state after `InitHeapEx` on a heap that was all zero, with arbitrary memory. -/
structure Initial (given : σ → List Chunk) (s : HeapState σ) : Prop where
  given : given s.env = []
  heap : ∃ h returnsMemory, (∀ a, h.mem a < 4294967296) ∧ h.outstandingAllocatedMemory = 0 ∧
    s.heap = initHeapEx h returnsMemory
  live : s.live = []

/-- A state in which a sequence of calls has left the heap. -/
def Reachable (getMemory : GetMemory σ) (given : σ → List Chunk) (fuel : Nat)
    (s : HeapState σ) : Prop :=
  ∃ s₀, Initial given s₀ ∧ Reaches (Step getMemory given fuel) s₀ s

theorem Initial.ready (hi : Initial given s) :
    Ready s.heap (given s.env) s.live [] ∧ FenceBits s.heap [] := by
  obtain ⟨hgiven, ⟨h, ret, hwords, hout, hheap⟩, hlive⟩ := hi
  rw [hgiven, hheap, hlive]
  refine ⟨⟨⟨by simp, by simp, by simp, by simp, by simp, by simp, by simp, by simp⟩,
    ⟨hwords, by simp, fun i => ⟨[], by simp [FreeList, initHeapEx], by simp⟩,
      fun i => by simp [initHeapEx]⟩, by simp [Settled], by simp [usedOf], hout⟩, by simp [FenceBits]⟩

theorem Reachable.ready (hg : GivesFresh getMemory given) (hfuel : 4294967296 < fuel)
    (hs : Reachable getMemory given fuel s) :
    ∃ items, Ready s.heap (given s.env) s.live items := by
  obtain ⟨s₀, hi, hrun⟩ := hs
  refine hrun.invariant (P := fun s => ∃ items, Ready s.heap (given s.env) s.live items)
    ⟨[], hi.ready.1⟩ ?_
  rintro a b ⟨items, hr⟩ ⟨call, ptr, ha, hrun⟩
  obtain ⟨s', ptr', items', hserved⟩ := call_served hg hfuel hr ha
  obtain ⟨rfl, -⟩ := Prod.mk.inj (Except.ok.inj (hserved.run.symm.trans hrun))
  exact ⟨items', hserved.ready⟩

end Step

/-! ## A small system -/

/-- A system that has eight chunks of `len` bytes. -/
def fewChunks (len : Nat) : GetMemory Nat := fun k needed =>
  .ok (if needed ≤ len ∧ k < 8 then (k + 1, some ⟨4096 * (k + 1), len⟩) else (k, none))

def fewGiven (len : Nat) : Nat → List Chunk
  | 0 => []
  | k + 1 => ⟨4096 * (k + 1), len⟩ :: fewGiven len k

theorem mem_fewGiven {len : Nat} : ∀ {k : Nat} {c : Chunk},
    c ∈ fewGiven len k → ∃ j < k, c = ⟨4096 * (j + 1), len⟩
  | k + 1, c, hc => by
    rcases List.mem_cons.mp hc with rfl | hc
    · exact ⟨k, by omega, rfl⟩
    · obtain ⟨j, hj, rfl⟩ := mem_fewGiven hc
      exact ⟨j, by omega, rfl⟩

theorem fewChunks_givesFresh {len : Nat} (hlen : len ≤ 4096) (h8 : len % 8 = 0) :
    GivesFresh (fewChunks len) (fewGiven len) := by
  refine ⟨fun k n => ⟨_, rfl⟩, fun k n k' hk => ?_, fun k n k' c hk => ?_⟩
  · unfold fewChunks at hk
    split at hk <;> simp only [Except.ok.injEq, Prod.mk.injEq, reduceCtorEq, and_false] at hk
    rw [hk.1]
  · unfold fewChunks at hk
    split at hk
    · next hfit =>
      simp only [Except.ok.injEq, Prod.mk.injEq, Option.some.injEq] at hk
      obtain ⟨rfl, rfl⟩ := hk
      refine ⟨⟨by simp, by simp only; omega, hfit.1, h8, fun d hd => ?_⟩, rfl⟩
      obtain ⟨j, hj, rfl⟩ := mem_fewGiven hd
      simp only
      omega
    · simp at hk

/-- The heap right after `InitHeapEx`, in memory whose words are all `word`. -/
def emptyHeap (word : Nat) : HeapState Nat :=
  ⟨0, initHeapEx ⟨fun _ => word, fun _ => 0, 0, 0, false⟩ true, []⟩

theorem emptyHeap_reachable {len word : Nat} (hw : word < 4294967296) :
    Reachable (fewChunks len) (fewGiven len) 4294967297 (emptyHeap word) :=
  ⟨emptyHeap word, ⟨rfl, ⟨_, _, fun _ => hw, rfl, rfl⟩, rfl⟩, Relation.ReflTransGen.refl⟩

/-- The state after a call that returns. -/
def after (len : Nat) (call : Call) (s : HeapState Nat) : HeapState Nat :=
  match call.run (fewChunks len) 4294967297 s with
  | .ok (s', _) => s'
  | .error _ => s

theorem after_reachable {len : Nat} {call : Call} {s : HeapState Nat} (hlen : len ≤ 4096)
    (h8 : len % 8 = 0) (hs : Reachable (fewChunks len) (fewGiven len) 4294967297 s)
    (ha : call.Allowed (fewGiven len) s) :
    Reachable (fewChunks len) (fewGiven len) 4294967297 (after len call s) := by
  have hg := fewChunks_givesFresh hlen h8
  obtain ⟨items, hr⟩ := hs.ready hg (by decide)
  obtain ⟨s', ptr, items', hserved⟩ := call_served hg
    (show 4294967296 < 4294967297 by decide) hr ha
  have hafter : after len call s = s' := by
    unfold after
    rw [hserved.run]
  obtain ⟨s₀, hi, hrun⟩ := hs
  exact ⟨s₀, hi, hrun.tail ⟨call, ptr, ha, hafter ▸ hserved.run⟩⟩

/-- The heap after one allocation that takes all of a chunk. -/
def oneBlock : HeapState Nat := after 64 (.alloc 32) (emptyHeap 0)

theorem oneBlock_reachable : Reachable (fewChunks 64) (fewGiven 64) 4294967297 oneBlock :=
  after_reachable (by decide) (by decide) (emptyHeap_reachable (by decide))
    (show 32 ≤ 4294967264 by decide)

/-! ## The invariant -/

/-- Whatever callers do, the heap is in order between calls and every call returns. -/
theorem heap_stays_ready {σ : Type} {getMemory : GetMemory σ} {given : σ → List Chunk}
    {fuel : Nat} {s : HeapState σ} (hg : GivesFresh getMemory given) (hfuel : 4294967296 < fuel)
    (hs : Reachable getMemory given fuel s) :
    (∃ items, Ready s.heap (given s.env) s.live items) ∧
      ∀ call : Call, call.Allowed given s → ∃ r, call.run getMemory fuel s = .ok r := by
  obtain ⟨items, hr⟩ := hs.ready hg hfuel
  refine ⟨⟨items, hr⟩, fun call ha => ?_⟩
  obtain ⟨s', ptr, items', hserved⟩ := call_served hg hfuel hr ha
  exact ⟨_, hserved.run⟩

/-- One block is in use. -/
theorem heap_stays_ready_oneBlock :
    (∃ items, Ready oneBlock.heap (fewGiven 64 oneBlock.env) oneBlock.live items) ∧
      ∀ call : Call, call.Allowed (fewGiven 64) oneBlock →
        ∃ r, call.run (fewChunks 64) 4294967297 oneBlock = .ok r :=
  heap_stays_ready (fewChunks_givesFresh (by decide) (by decide)) (by decide) oneBlock_reachable

end Nolrem.Mem
