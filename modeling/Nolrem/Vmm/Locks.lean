import Nolrem.Mem.HeapRuns
import Nolrem.Virt.Arena

/-!
# The locks of the allocators

`AllocVmmHeap`, `FreeVmmHeap` and `VmmSpecialHeapGetMemory` of `kernel/mem/vmm.c`, and `AllocVirtEx`
and `FreeVirtEx` of `kernel/mem/allocvirtex.c` on the arena of the kernel, with the two spinlocks
that they take. There is one CPU, so a lock that is acquired while it is held is never released.

The bootstrap page is in use: `InitVirtArena` made the first allocation. `AllocPhys` and
`ArchMapKernelPageDirectly` take neither lock.
-/

namespace Nolrem.Vmm.Locks

open Nolrem.Lib Nolrem.Mem
open Nolrem.Virt (VirtRange pagesFor takeFirstFit freePlan mergedLeft mergedRight Separated)

/-! ## The code -/

/-- What the VMM heap gets its memory from, and the locks. -/
structure Env where
  arena : List VirtRange
  /-- The lock of the arena is held. -/
  arenaLock : Bool
  /-- `vmm_heap_lock` is held. -/
  heapLock : Bool
  /-- The memory that the heap has. -/
  given : List Chunk

abbrev State := HeapState Env

def acquireArenaLock (e : Env) : Except Fault Env :=
  if e.arenaLock then .error .deadlock else .ok { e with arenaLock := true }

def releaseArenaLock (e : Env) : Env := { e with arenaLock := false }

def acquireHeapLock (e : Env) : Except Fault Env :=
  if e.heapLock then .error .deadlock else .ok { e with heapLock := true }

def releaseHeapLock (e : Env) : Env := { e with heapLock := false }

/-- `AllocVirtEx` up to the release of the lock: the result, and the node that is left to free. -/
def scanArena (e : Env) (bytes : Nat) : Except Fault (Env × Nat × Option Nat) := do
  let e ← acquireArenaLock e
  match takeFirstFit (pagesFor bytes) e.arena with
  | none => .ok (releaseArenaLock e, 0, none)
  | some (retv, freeList, curr) => .ok (releaseArenaLock { e with arena := freeList }, retv, curr)

/-- `VmmSpecialHeapGetMemory`, which is called by `AllocHeapEx` -/
def vmmSpecialHeapGetMemory (e : Env) (bytes : Nat) : Except Fault (Env × Option Chunk) := do
  let (e, virt, curr) ← scanArena e bytes
  -- `FreeVmmHeap` of the node begins with the lock, which the caller of `AllocHeapEx` holds
  let e ← if curr.isSome then acquireHeapLock e else .ok e
  if virt = 0 then .ok (e, none)
  else
    let c : Chunk := { base := virt, len := wmul (pagesFor bytes) pageSize }
    .ok ({ e with given := c :: e.given }, some c)

/-- `AllocVmmHeap` -/
def allocVmmHeap (fuel : Nat) (s : State) (bytes : Nat) : Except Fault (State × Nat) := do
  let e ← acquireHeapLock s.env
  let (s, retv) ← (Mem.Call.alloc bytes).run vmmSpecialHeapGetMemory fuel { s with env := e }
  .ok ({ s with env := releaseHeapLock s.env }, retv)

/-- `FreeVmmHeap` -/
def freeVmmHeap (fuel : Nat) (s : State) (ptr : Nat) : Except Fault State := do
  let e ← acquireHeapLock s.env
  let (s, _) ← (Mem.Call.free ptr).run vmmSpecialHeapGetMemory fuel { s with env := e }
  .ok { s with env := releaseHeapLock s.env }

/-- `AllocVirtEx` -/
def allocVirtEx (fuel : Nat) (s : State) (bytes : Nat) : Except Fault (State × Nat) := do
  let (e, retv, curr) ← scanArena s.env bytes
  match curr with
  | none => .ok ({ s with env := e }, retv)
  | some curr =>
    let s ← freeVmmHeap fuel { s with env := e } curr
    .ok (s, retv)

/-- `sizeof(struct virt_range)` -/
def sizeofVirtRange : Nat := 12

/-- `FreeVirtEx` -/
def freeVirtEx (fuel : Nat) (s : State) (startAddr bytes : Nat) : Except Fault State := do
  let e ← acquireArenaLock s.env
  match freePlan e.arena startAddr bytes with
  | .mergeBoth curr freeList =>
    freeVmmHeap fuel { s with env := releaseArenaLock { e with arena := freeList } } curr
  | .mergeOne freeList => .ok { s with env := releaseArenaLock { e with arena := freeList } }
  | .insert freeList =>
    let (s, node) ← allocVmmHeap fuel { s with env := e } sizeofVirtRange
    .ok { s with env := releaseArenaLock { s.env with arena := freeList node } }

/-! ## The calls -/

inductive Request where
  | allocVmmHeap (bytes : Nat)
  | freeVmmHeap (ptr : Nat)
  | allocVirtEx (bytes : Nat)
  | freeVirtEx (startAddr bytes : Nat)
  /-- A caller writes a word of a block that it holds. -/
  | write (ptr index value : Nat)
  /-- A word that is not in the heap changes. -/
  | outside (addr value : Nat)
deriving DecidableEq, Repr

/-- The state after a call, and what it returns. -/
def Request.run (fuel : Nat) : Request → State → Except Fault (State × Nat)
  | .allocVmmHeap bytes, s => Locks.allocVmmHeap fuel s bytes
  | .freeVmmHeap ptr, s => do
    let s ← Locks.freeVmmHeap fuel s ptr
    .ok (s, 0)
  | .allocVirtEx bytes, s => Locks.allocVirtEx fuel s bytes
  | .freeVirtEx startAddr bytes, s => do
    let s ← Locks.freeVirtEx fuel s startAddr bytes
    .ok (s, 0)
  | .write ptr index value, s =>
    (Mem.Call.write ptr index value).run vmmSpecialHeapGetMemory fuel s
  | .outside addr value, s => (Mem.Call.outside addr value).run vmmSpecialHeapGetMemory fuel s

/--
What callers may do: they ask for sizes whose pages can be counted in 32 bits (the kernel asks for
at most 512 bytes), free blocks that are theirs, and give back addresses that are neither free nor
in the heap.
-/
def Request.Allowed : Request → State → Prop
  | .allocVmmHeap bytes, _ => bytes ≤ 4294963168
  | .freeVmmHeap ptr, s => ptr = 0 ∨ (ptr ∈ s.live ∧ ∀ r ∈ s.env.arena, r.node ≠ ptr)
  | .allocVirtEx _, _ => True
  | .freeVirtEx startAddr bytes, s =>
    0 < pagesFor bytes ∧ 0 < startAddr ∧ startAddr + pagesFor bytes * 4096 ≤ 4294967296 ∧
      ∀ x, startAddr ≤ x → x < startAddr + pagesFor bytes * 4096 →
        cover VirtRange.span s.env.arena x = 0 ∧ cover Chunk.span s.env.given x = 0
  | .write ptr index value, s => (Mem.Call.write ptr index value).Allowed Env.given s
  | .outside addr value, s => (Mem.Call.outside addr value).Allowed Env.given s

/-- No free block fits, so that `FindBlock` requests memory. -/
def Refills (fuel : Nat) (h : Heap) (bytes : Nat) : Prop :=
  bytes ≠ 0 ∧ findFree fuel h (roundUpSize bytes) = .ok none

/-- The bytes that `RequestBlock` asks for. -/
def refillBytes (bytes : Nat) : Nat := wadd (systemSize (roundUpSize bytes)) (minReqSize * 2)

/-- The first range with enough pages has no page more. -/
def UsesUp (arena : List VirtRange) (pages : Nat) : Prop :=
  ∃ r, arena.find? (fun r => pages ≤ r.pages) = some r ∧ r.pages = pages

/--
A call of `AllocVmmHeap` does not use up a range of the arena for new memory, and one of
`FreeVirtEx` that merges with no range has a free block for the node.
-/
def Request.Safe (fuel : Nat) : Request → State → Prop
  | .allocVmmHeap bytes, s =>
    Refills fuel s.heap bytes → ¬ UsesUp s.env.arena (pagesFor (refillBytes bytes))
  | .freeVirtEx startAddr bytes, s =>
    mergedLeft s.env.arena startAddr = false →
      mergedRight s.env.arena startAddr
          (wadd startAddr (wmul (pagesFor bytes) pageSize)) = false →
        ¬ Refills fuel s.heap sizeofVirtRange
  | _, _ => True

/-- A safe call that returns. -/
def SafeStep (fuel : Nat) (s s' : State) : Prop :=
  ∃ (r : Request) (v : Nat), r.Allowed s ∧ r.Safe fuel s ∧ r.run fuel s = .ok (s', v)

/-- After `InitVirtArena`: one free range, whose node is a block of the heap. -/
structure Booted (s : State) : Prop where
  arenaLock : s.env.arenaLock = false
  heapLock : s.env.heapLock = false
  heap : ∃ items, Ready s.heap s.env.given s.live items
  arena : ∃ r, s.env.arena = [r] ∧ r.node ∈ s.live ∧ 0 < r.pages ∧ 0 < r.startAddr ∧
    r.endAddr ≤ 4294967296 ∧
    ∀ c ∈ s.env.given, c.base + c.len ≤ r.startAddr ∨ r.endAddr ≤ c.base

/-! ## The heap asks for memory once -/

section Refill

variable {σ : Type} {getMemory getMemory' : GetMemory σ} {given : σ → List Chunk} {e : σ} {h : Heap}
  {live : List Nat} {items : List Item} {fuel bytes : Nat}

theorem allocHeapEx_congr (hsame : Refills fuel h bytes →
      getMemory e (refillBytes bytes) = getMemory' e (refillBytes bytes)) :
    allocHeapEx getMemory fuel e h bytes = allocHeapEx getMemory' fuel e h bytes := by
  unfold allocHeapEx
  by_cases h0 : bytes = 0
  · rw [if_pos h0, if_pos h0]
  rw [if_neg h0, if_neg h0]
  unfold findBlock
  cases hfind : findFree fuel h (roundUpSize bytes) with
  | error f => rfl
  | ok found =>
    cases found with
    | some place => rfl
    | none =>
      have hget := hsame ⟨h0, hfind⟩
      unfold refillBytes at hget
      simp only [bind, Except.bind, growAndAllocate, requestBlock, hget]

theorem allocHeapEx_error {f : Fault} (hrefill : Refills fuel h bytes)
    (hget : getMemory e (refillBytes bytes) = .error f) :
    allocHeapEx getMemory fuel e h bytes = .error f := by
  obtain ⟨h0, hfind⟩ := hrefill
  unfold refillBytes at hget
  unfold allocHeapEx findBlock
  rw [if_neg h0, hfind]
  simp only [bind, Except.bind, growAndAllocate, requestBlock, hget]

/-- The environment changes in that call, or not at all. -/
theorem allocHeapEx_env {e' : σ} {h' : Heap} {ptr : Nat}
    (halloc : allocHeapEx getMemory fuel e h bytes = .ok (e', h', ptr)) :
    e' = e ∨ Refills fuel h bytes ∧ ∃ c, getMemory e (refillBytes bytes) = .ok (e', c) := by
  unfold allocHeapEx at halloc
  by_cases h0 : bytes = 0
  · rw [if_pos h0] at halloc
    exact Or.inl (congrArg Prod.fst (Except.ok.inj halloc)).symm
  rw [if_neg h0] at halloc
  unfold findBlock at halloc
  cases hfind : findFree fuel h (roundUpSize bytes) with
  | error f =>
    rw [hfind] at halloc
    cases halloc
  | ok found =>
    rw [hfind] at halloc
    cases found with
    | some place =>
      left
      simp only [bind, Except.bind] at halloc
      cases hblock : allocateBlock fuel h place.1 place.2 (roundUpSize bytes) with
      | error f =>
        rw [hblock] at halloc
        cases halloc
      | ok r =>
        rw [hblock] at halloc
        simp only at halloc
        split at halloc
        · exact (congrArg Prod.fst (Except.ok.inj halloc)).symm
        · exact (congrArg Prod.fst (Except.ok.inj halloc)).symm
    | none =>
      right
      refine ⟨⟨h0, hfind⟩, ?_⟩
      unfold refillBytes
      simp only [bind, Except.bind, growAndAllocate, requestBlock] at halloc
      cases hget : getMemory e (wadd (systemSize (roundUpSize bytes)) (minReqSize * 2)) with
      | error f =>
        rw [hget] at halloc
        cases halloc
      | ok r =>
        obtain ⟨e₁, c⟩ := r
        rw [hget] at halloc
        refine ⟨c, ?_⟩
        cases c with
        | none =>
          simp only [if_true] at halloc
          exact congrArg (fun r => Except.ok (r.1, none)) (Except.ok.inj halloc)
        | some c =>
          -- what follows the call carries its environment along
          simp only at halloc
          grind

/-- What `get_memory` may return when it is called with `n` in `e`. -/
def Offer (given : σ → List Chunk) (e : σ) (n : Nat) : σ × Option Chunk → Prop
  | (e', none) => given e' = given e
  | (e', some c) => Fresh (given e) n c ∧ given e' = c :: given e

/-- It returns `r` there, and nothing anywhere else. -/
def oneOffer (given : σ → List Chunk) (e : σ) (n : Nat) (r : σ × Option Chunk) : GetMemory σ :=
  fun e' n' => .ok (if given e' = given e ∧ n' = n then r else (e', none))

theorem oneOffer_givesFresh {n : Nat} {r : σ × Option Chunk} (hr : Offer given e n r) :
    GivesFresh (oneOffer given e n r) given := by
  refine ⟨fun e' n' => ⟨_, rfl⟩, fun e₁ n₁ e₂ hget => ?_, fun e₁ n₁ e₂ c hget => ?_⟩
  · unfold oneOffer at hget
    split_ifs at hget with hsame
    · obtain rfl := Except.ok.inj hget
      exact (show given e₂ = given e from hr).trans hsame.1.symm
    · rw [(Prod.mk.inj (Except.ok.inj hget)).1]
  · unfold oneOffer at hget
    split_ifs at hget with hsame
    · obtain rfl := Except.ok.inj hget
      obtain ⟨hgiven, rfl⟩ := hsame
      rw [hgiven]
      exact hr
    · cases (Prod.mk.inj (Except.ok.inj hget)).2

theorem live_nodup_of_ready {chunks : List Chunk} (hr : Ready h chunks live items) :
    live.Nodup := by
  refine hr.live.nodup_iff.mpr (List.Nodup.map_on (fun u hu v hv heq => ?_)
    (hr.layout.nodup.filter _))
  by_contra hne
  have hui := (mem_usedOf.mp hu).1
  have hvi := (mem_usedOf.mp hv).1
  have hdisj := hr.layout.disjoint hui hvi hne
  have hu0 := hr.layout.size_pos hui
  have hv0 := hr.layout.size_pos hvi
  unfold payloadOf at heq
  omega

/-- `AllocHeapEx` returns if `get_memory` does, and leaves the heap in order. -/
theorem allocHeapEx_returns (getMemory : GetMemory σ) (given : σ → List Chunk)
    (hr : Ready h (given e) live items) (hle : bytes ≤ 4294967264)
    (hfuel : 4294967296 < fuel)
    (hoffer : Refills fuel h bytes → ∃ r, getMemory e (refillBytes bytes) = .ok r ∧
      Offer given e (refillBytes bytes) r) :
    ∃ e' h' ptr items', allocHeapEx getMemory fuel e h bytes = .ok (e', h', ptr) ∧
      Ready h' (given e') (if ptr = 0 then live else ptr :: live) items' := by
  have hsame : ∃ r, Offer given e (refillBytes bytes) r ∧
      (Refills fuel h bytes → getMemory e (refillBytes bytes) = .ok r) := by
    by_cases hrefill : Refills fuel h bytes
    · obtain ⟨r, hget, hr⟩ := hoffer hrefill
      exact ⟨r, hr, fun _ => hget⟩
    · exact ⟨(e, none), rfl, fun h => absurd h hrefill⟩
  obtain ⟨r, hr', hget⟩ := hsame
  have hcongr : allocHeapEx getMemory fuel e h bytes =
      allocHeapEx (oneOffer given e (refillBytes bytes) r) fuel e h bytes := by
    refine allocHeapEx_congr fun hrefill => ?_
    rw [hget hrefill, oneOffer, if_pos ⟨rfl, rfl⟩]
  obtain ⟨e', h', ptr, items', halloc, hres, -⟩ :=
    allocHeapEx_spec (oneOffer_givesFresh hr') hr hle hfuel
  refine ⟨e', h', ptr, items', hcongr.trans halloc, ?_⟩
  rcases hres with ⟨rfl, rfl, rfl, hgiven⟩ | ⟨h0, hgr⟩
  · rw [if_pos rfl, hgiven]
    exact hr
  · rw [if_neg h0]
    exact hgr.ready

/-- A free block of the heap is not `NULL`. -/
theorem allocHeapEx_ne_zero {chunks : List Chunk} (hr : Ready h chunks live items) (h0 : bytes ≠ 0)
    (hle : bytes ≤ 4294967264) (hfuel : 4294967296 < fuel) (hrefill : ¬ Refills fuel h bytes)
    {e' : σ} {h' : Heap} {ptr : Nat}
    (halloc : allocHeapEx getMemory fuel e h bytes = .ok (e', h', ptr)) : ptr ≠ 0 := by
  obtain ⟨h1, h2, h3, h4⟩ := roundUpSize_spec hle
  obtain ⟨r, hfind, hfits⟩ := findFree_spec hr.layout hr.rep (roundUpSize bytes) hfuel
  cases r with
  | none => exact absurd ⟨h0, hfind⟩ hrefill
  | some found =>
    obtain ⟨b, i⟩ := found
    obtain ⟨d, hd, hdk, rfl, hdi, hfit⟩ := hfits b i rfl
    obtain ⟨h₁, a, items', hblock, htaken, -⟩ := allocateBlock_spec hr.layout hr.rep hr.settled hd
      hdk (i := i) (by rw [hdi, hr.rep.listOf_eq hr.layout hd]) h3 h2 hfit (show 2 ≤ fuel by omega)
    obtain ⟨u, -, hua, -, hup⟩ := htaken.taken
    have hum := (mem_usedOf.mp (hup.mem_iff.mpr List.mem_cons_self)).1
    have hu0 := (htaken.layout.bounds hum).1
    unfold allocHeapEx findBlock at halloc
    rw [if_neg h0, hfind] at halloc
    simp only [bind, Except.bind, hblock, if_neg (show a ≠ 0 by omega)] at halloc
    have hptr : a + 4 = ptr := congrArg (fun r => r.2.2) (Except.ok.inj halloc)
    omega

end Refill

/-! ## The arena -/

/-- The arena is in order, its nodes are blocks in use, and the heap has none of its addresses. -/
structure ArenaOk (arena : List VirtRange) (given : List Chunk) (live : List Nat) : Prop where
  separated : Separated arena
  bounds : ∀ r ∈ arena, 0 < r.startAddr ∧ r.endAddr ≤ 4294967296
  nodup : (arena.map VirtRange.node).Nodup
  live : ∀ r ∈ arena, r.node ∈ live
  apart : ∀ x, cover VirtRange.span arena x + cover Chunk.span given x ≤ 1

section Arena

variable {arena arena' : List VirtRange} {given : List Chunk} {live : List Nat} {pages retv : Nat}
  {curr : Option Nat}

theorem takeFirstFit_curr (h : takeFirstFit pages arena = some (retv, arena', curr)) :
    (curr.isSome = true ↔ UsesUp arena pages) ∧
      (arena.map VirtRange.node).Perm (curr.toList ++ arena'.map VirtRange.node) := by
  induction arena generalizing retv arena' curr with
  | nil => cases h
  | cons r rest ih =>
    rw [takeFirstFit] at h
    unfold UsesUp
    by_cases hfit : pages ≤ r.pages
    · rw [if_pos hfit] at h
      rw [List.find?_cons_of_pos (by simpa using hfit)]
      by_cases hall : r.pages = pages
      · rw [if_pos hall] at h
        obtain ⟨rfl, rfl, rfl⟩ := (Option.some.inj h)
        exact ⟨iff_of_true rfl ⟨r, rfl, hall⟩, List.Perm.refl _⟩
      · rw [if_neg hall] at h
        cases h
        refine ⟨iff_of_false Bool.false_ne_true ?_, List.Perm.refl _⟩
        rintro ⟨q, hq, hall'⟩
        exact hall ((Option.some.inj hq) ▸ hall')
    · rw [if_neg hfit] at h
      rw [List.find?_cons_of_neg (by simpa using hfit)]
      cases hrest : takeFirstFit pages rest with
      | none =>
        rw [hrest] at h
        cases h
      | some found =>
        obtain ⟨retv₁, rest', curr₁⟩ := found
        rw [hrest] at h
        cases h
        obtain ⟨huse, hperm⟩ := ih hrest
        exact ⟨huse, (hperm.cons r.node).trans List.perm_middle.symm⟩

theorem not_usesUp_of_none (h : takeFirstFit pages arena = none) : ¬ UsesUp arena pages := by
  induction arena with
  | nil =>
    rintro ⟨r, ⟨⟩, -⟩
  | cons r rest ih =>
    rw [takeFirstFit] at h
    unfold UsesUp
    by_cases hfit : pages ≤ r.pages
    · rw [if_pos hfit] at h
      split at h <;> cases h
    · rw [if_neg hfit] at h
      rw [List.find?_cons_of_neg (by simpa using hfit)]
      cases hrest : takeFirstFit pages rest with
      | none => exact ih hrest
      | some found =>
        rw [hrest] at h
        cases h

theorem bounds_of_mem_cover (hb : ∀ r ∈ arena, 0 < r.startAddr ∧ r.endAddr ≤ 4294967296) {x : Nat}
    (hx : 0 < cover VirtRange.span arena x) : 0 < x ∧ x < 4294967296 := by
  obtain ⟨r, hr, h1, h2⟩ := (cover_pos_iff _).mp hx
  obtain ⟨hstart, hend⟩ := hb r hr
  exact ⟨Nat.lt_of_lt_of_le hstart h1, Nat.lt_of_lt_of_le h2 hend⟩

theorem bounds_of_cover (hsep : Separated arena)
    (hx : ∀ x, 0 < cover VirtRange.span arena x → 0 < x ∧ x < 4294967296) :
    ∀ r ∈ arena, 0 < r.startAddr ∧ r.endAddr ≤ 4294967296 := by
  intro r hr
  have hpages := hsep.nonempty r hr
  have hfirst := hx r.startAddr (cover_pos_of_mem _ hr ⟨Nat.le_refl _, by
    show r.startAddr < r.startAddr + r.pages * 4096
    omega⟩)
  have hlast := hx (r.startAddr + r.pages * 4096 - 1) (cover_pos_of_mem _ hr ⟨by
    show r.startAddr ≤ r.startAddr + r.pages * 4096 - 1
    omega, by
    show r.startAddr + r.pages * 4096 - 1 < r.startAddr + r.pages * 4096
    omega⟩)
  exact ⟨hfirst.1, by
    show r.startAddr + r.pages * 4096 ≤ 4294967296
    omega⟩

/-- What nothing is asked for does. -/
theorem takeFirstFit_zero (h : ArenaOk arena given live)
    (htake : takeFirstFit 0 arena = some (retv, arena', curr)) : arena' = arena ∧ curr = none := by
  cases arena with
  | nil => cases htake
  | cons r rest =>
    have hpages := h.separated.nonempty r List.mem_cons_self
    have hend : r.startAddr + r.pages * 4096 ≤ 4294967296 := (h.bounds r List.mem_cons_self).2
    have hzero : wmul 0 pageSize = 0 := by decide
    rw [takeFirstFit, if_pos (Nat.zero_le _), if_neg (by omega), hzero,
      wadd_eq (by omega), wsub_eq (Nat.zero_le _) (by omega)] at htake
    cases htake
    exact ⟨rfl, rfl⟩

theorem ArenaOk.take (h : ArenaOk arena given live)
    (htake : takeFirstFit pages arena = some (retv, arena', curr)) :
    ArenaOk arena' given live ∧ (∀ n ∈ curr, n ∈ live ∧ ∀ r ∈ arena', r.node ≠ n) ∧
      (0 < pages → ∀ x, cover VirtRange.span arena x =
        cover VirtRange.span arena' x + hit retv (retv + pages * 4096) x) := by
  rcases Nat.eq_zero_or_pos pages with rfl | hpos
  · obtain ⟨rfl, rfl⟩ := takeFirstFit_zero h htake
    exact ⟨h, by rintro n ⟨⟩, fun hlt => absurd hlt (Nat.lt_irrefl 0)⟩
  obtain ⟨hsep, hcover, -, -⟩ :=
    Virt.takeFirstFit_spec hpos h.separated (fun r hr => (h.bounds r hr).2) htake
  have hperm := (takeFirstFit_curr htake).2
  have hnodup := List.nodup_append.mp (hperm.nodup_iff.mp h.nodup)
  have hle : ∀ x, cover VirtRange.span arena' x ≤ cover VirtRange.span arena x := fun x => by
    rw [hcover x]
    exact Nat.le_add_right _ _
  have hlive : ∀ n ∈ curr.toList ++ arena'.map VirtRange.node, n ∈ live := by
    intro n hn
    obtain ⟨r, hr, rfl⟩ := List.mem_map.mp (hperm.mem_iff.mpr hn)
    exact h.live r hr
  refine ⟨⟨hsep, bounds_of_cover hsep fun x hx => bounds_of_mem_cover h.bounds
      (Nat.lt_of_lt_of_le hx (hle x)), hnodup.2.1, fun r hr => hlive _ (List.mem_append_right _
      (List.mem_map_of_mem hr)), fun x => (Nat.add_le_add_right (hle x) _).trans (h.apart x)⟩,
    fun n hn => ?_, fun _ => hcover⟩
  have hmem : n ∈ curr.toList := Option.mem_toList.mpr hn
  refine ⟨hlive n (List.mem_append_left _ hmem), fun r hr heq => ?_⟩
  exact hnodup.2.2 n hmem r.node (List.mem_map_of_mem hr) heq.symm

/-- The addresses of a range that is taken are not in the heap, nor in the arena any more. -/
theorem ArenaOk.give (h : ArenaOk arena given live) (hlen : ∀ d ∈ given, 0 < d.len)
    (hpos : 0 < pages) (htake : takeFirstFit pages arena = some (retv, arena', curr)) :
    ArenaOk arena' (⟨retv, pages * 4096⟩ :: given) live ∧
      Fresh given (pages * 4096) ⟨retv, pages * 4096⟩ := by
  obtain ⟨hok, -, hcover⟩ := h.take htake
  have hcover := hcover hpos
  have hone (x : Nat) (h1 : retv ≤ x) (h2 : x < retv + pages * 4096) :
      hit retv (retv + pages * 4096) x = 1 := if_pos ⟨h1, h2⟩
  have hin (x : Nat) (h1 : retv ≤ x) (h2 : x < retv + pages * 4096) :
      0 < cover VirtRange.span arena x := by
    rw [hcover x, hone x h1 h2]
    exact Nat.succ_pos _
  have hfirst := bounds_of_mem_cover h.bounds (hin retv (Nat.le_refl _) (by omega))
  have hlast := bounds_of_mem_cover h.bounds
    (hin (retv + pages * 4096 - 1) (by omega) (by omega))
  refine ⟨⟨hok.separated, hok.bounds, hok.nodup, hok.live, fun x => ?_⟩,
    ⟨hfirst.1, by simp only; omega, Nat.le_refl _, by simp only; omega, fun d hd => ?_⟩⟩
  · have hx := h.apart x
    rw [hcover x] at hx
    rw [cover_cons]
    show cover VirtRange.span arena' x + (hit retv (retv + pages * 4096) x + _) ≤ 1
    omega
  · -- a common address would be covered twice
    by_contra hmeet
    simp only [not_or, Nat.not_le] at hmeet
    have hd0 := hlen d hd
    have hboth (x : Nat) (h1 : retv ≤ x) (h2 : x < retv + pages * 4096) (h3 : d.base ≤ x)
        (h4 : x < d.base + d.len) : False := by
      have ha := hin x h1 h2
      have hg : 0 < cover Chunk.span given x := cover_pos_of_mem _ hd ⟨h3, h4⟩
      have hx := h.apart x
      omega
    exact hboth (max retv d.base) (by omega) (by omega) (by omega) (by omega)

end Arena

/-! ## New memory -/

section GetMemory

variable {e : Env} {live : List Nat} {bytes : Nat}

/-- `AllocVirtEx` on an arena that is in order, up to the release of the lock. -/
theorem scanArena_spec (bytes : Nat) (hok : ArenaOk e.arena e.given live)
    (hlock : e.arenaLock = false) (hlen : ∀ d ∈ e.given, 0 < d.len) :
    ∃ arena retv curr, scanArena e bytes = .ok ({ e with arena }, retv, curr) ∧
      ArenaOk arena e.given live ∧
      (curr.isSome = true ↔ UsesUp e.arena (pagesFor bytes)) ∧
      (∀ n ∈ curr, n ∈ live ∧ ∀ r ∈ arena, r.node ≠ n) ∧
      (0 < pagesFor bytes → retv ≠ 0 →
        ArenaOk arena (⟨retv, pagesFor bytes * 4096⟩ :: e.given) live ∧
          Fresh e.given (pagesFor bytes * 4096) ⟨retv, pagesFor bytes * 4096⟩) := by
  obtain ⟨arena, arenaLock, heapLock, given⟩ := e
  obtain rfl : arenaLock = false := hlock
  have hscan : scanArena ⟨arena, false, heapLock, given⟩ bytes =
      match takeFirstFit (pagesFor bytes) arena with
      | none => .ok (⟨arena, false, heapLock, given⟩, 0, none)
      | some (retv, freeList, curr) => .ok (⟨freeList, false, heapLock, given⟩, retv, curr) := rfl
  rw [hscan]
  cases htake : takeFirstFit (pagesFor bytes) arena with
  | none =>
    exact ⟨arena, 0, none, rfl, hok, iff_of_false Bool.false_ne_true (not_usesUp_of_none htake),
      (by rintro n ⟨⟩), fun _ h0 => absurd rfl h0⟩
  | some found =>
    obtain ⟨retv, freeList, curr⟩ := found
    obtain ⟨hok', hcurr, -⟩ := hok.take htake
    exact ⟨freeList, retv, curr, rfl, hok', (takeFirstFit_curr htake).1, hcurr,
      fun hpos _ => hok.give hlen hpos htake⟩

/-- The node of a range that is used up cannot be freed while the heap is in use. -/
theorem getMemory_deadlock (hok : ArenaOk e.arena e.given live) (hlock : e.arenaLock = false)
    (hheap : e.heapLock = true) (hlen : ∀ d ∈ e.given, 0 < d.len)
    (huse : UsesUp e.arena (pagesFor bytes)) :
    vmmSpecialHeapGetMemory e bytes = .error .deadlock := by
  obtain ⟨arena, retv, curr, hscan, -, hcurr, -⟩ := scanArena_spec bytes hok hlock hlen
  unfold vmmSpecialHeapGetMemory
  simp only [hscan, bind, Except.bind, hcurr.mpr huse, if_true, acquireHeapLock, hheap]

/-- Otherwise the memory is that of pages that nothing else has. -/
theorem getMemory_offer (hok : ArenaOk e.arena e.given live) (hlock : e.arenaLock = false)
    (hlen : ∀ d ∈ e.given, 0 < d.len) (h0 : 0 < bytes) (hle : bytes ≤ 4294963200)
    (huse : ¬ UsesUp e.arena (pagesFor bytes)) :
    ∃ e' c, vmmSpecialHeapGetMemory e bytes = .ok (e', c) ∧ Offer Env.given e bytes (e', c) ∧
      ArenaOk e'.arena e'.given live ∧ e'.arenaLock = false ∧ e'.heapLock = e.heapLock := by
  obtain ⟨arena, retv, curr, hscan, hok', hcurr, -, hgive⟩ :=
    scanArena_spec bytes hok hlock hlen
  have hnone : curr.isSome = false := Bool.eq_false_iff.mpr (mt hcurr.mp huse)
  have hpages := Virt.pagesFor_eq hle
  unfold vmmSpecialHeapGetMemory
  simp only [hscan, bind, Except.bind, hnone, Bool.false_eq_true, if_false]
  by_cases hretv : retv = 0
  · rw [if_pos hretv]
    exact ⟨_, _, rfl, rfl, hok', hlock, rfl⟩
  · have hmul : wmul (pagesFor bytes) pageSize = pagesFor bytes * 4096 :=
      wmul_eq (by unfold pageSize; omega)
    obtain ⟨hok'', hfresh⟩ := hgive (by omega) hretv
    rw [if_neg hretv, hmul]
    refine ⟨_, _, rfl, ⟨⟨hfresh.start, hfresh.stop, ?_, hfresh.multiple, hfresh.apart⟩, rfl⟩, hok'',
      hlock, rfl⟩
    simp only
    omega

end GetMemory

/-! ## What each call leaves -/

/-- Between two calls: the locks are free, and the heap and the arena are in order. -/
structure InOrder (s : State) : Prop where
  arenaLock : s.env.arenaLock = false
  heapLock : s.env.heapLock = false
  heap : ∃ items, Ready s.heap s.env.given s.live items
  arena : ArenaOk s.env.arena s.env.given s.live

section Calls

variable {s : State} {fuel bytes : Nat}

theorem ArenaOk.mono {arena : List VirtRange} {given : List Chunk} {live live' : List Nat}
    (h : ArenaOk arena given live) (hsub : ∀ r ∈ arena, r.node ∈ live → r.node ∈ live') :
    ArenaOk arena given live' :=
  ⟨h.separated, h.bounds, h.nodup, fun r hr => hsub r hr (h.live r hr), h.apart⟩

theorem len_pos_of_ready {h : Heap} {given : List Chunk} {live : List Nat} {items : List Item}
    (hr : Ready h given live items) : ∀ d ∈ given, 0 < d.len := fun d hd => by
  have := (hr.layout.chunk d hd).2.2
  omega

/-- The size that is requested for a size that is asked for. -/
theorem refillBytes_spec (hle : bytes ≤ 4294963168) :
    0 < refillBytes bytes ∧ refillBytes bytes ≤ 4294963200 := by
  have hround : roundUpSize bytes ≤ 4294963168 := by
    have hsize : roundUpSize bytes = ((if bytes < 8 then 8 else bytes) + 7) / 8 * 8 := by
      unfold roundUpSize minReqSize alignment
      rw [wadd_eq (by split <;> omega)]
      exact sizeBits_eq (by split <;> omega)
    rw [hsize]
    split <;> omega
  have htable : ∀ j < 24, freeListBlockSizes.getD j 0 ≤ 1024 := by decide
  have hsystem : 8 ≤ systemSize (roundUpSize bytes) ∧
      systemSize (roundUpSize bytes) ≤ 4294963176 := by
    have hlow := (systemSize_spec (show roundUpSize bytes ≤ 4294967264 by omega)).1
    refine ⟨by omega, ?_⟩
    unfold systemSize totalNumFreeLists metadataTotal
    dsimp only
    split
    · next hi =>
      have := htable _ hi
      rw [wadd_eq (by omega)]
      omega
    · rw [wadd_eq (by omega)]
      omega
  unfold refillBytes minReqSize
  rw [wadd_eq (by omega)]
  exact ⟨by omega, by omega⟩

/-- With the lock of the heap free, `AllocVmmHeap` is `AllocHeapEx`. -/
theorem allocVmmHeap_eq (hheap : s.env.heapLock = false) :
    allocVmmHeap fuel s bytes =
      (allocHeapEx vmmSpecialHeapGetMemory fuel { s.env with heapLock := true } s.heap bytes).map
        fun r => (⟨releaseHeapLock r.1, r.2.1, if r.2.2 = 0 then s.live else r.2.2 :: s.live⟩,
          r.2.2) := by
  unfold allocVmmHeap acquireHeapLock Mem.Call.run
  rw [hheap]
  simp only [Bool.false_eq_true, if_false, bind, Except.bind]
  cases allocHeapEx vmmSpecialHeapGetMemory fuel { s.env with heapLock := true } s.heap bytes with
  | error f => rfl
  | ok r => rfl

theorem allocVmmHeap_deadlock (hs : InOrder s) (hrefill : Refills fuel s.heap bytes)
    (huse : UsesUp s.env.arena (pagesFor (refillBytes bytes))) :
    allocVmmHeap fuel s bytes = .error .deadlock := by
  obtain ⟨items, hr⟩ := hs.heap
  rw [allocVmmHeap_eq hs.heapLock, allocHeapEx_error hrefill
    (getMemory_deadlock (e := { s.env with heapLock := true }) hs.arena hs.arenaLock rfl
      (len_pos_of_ready hr) huse)]
  rfl

theorem allocVmmHeap_returns (hs : InOrder s) (hfuel : 4294967296 < fuel) (hle : bytes ≤ 4294963168)
    (hsafe : Refills fuel s.heap bytes → ¬ UsesUp s.env.arena (pagesFor (refillBytes bytes))) :
    ∃ s' ptr, allocVmmHeap fuel s bytes = .ok (s', ptr) ∧ InOrder s' := by
  obtain ⟨items, hr⟩ := hs.heap
  have hget : Refills fuel s.heap bytes → ∃ e' c,
      vmmSpecialHeapGetMemory { s.env with heapLock := true } (refillBytes bytes) = .ok (e', c) ∧
        Offer Env.given { s.env with heapLock := true } (refillBytes bytes) (e', c) ∧
        ArenaOk e'.arena e'.given s.live ∧ e'.arenaLock = false ∧ e'.heapLock = true := by
    intro hrefill
    exact getMemory_offer (e := { s.env with heapLock := true }) hs.arena hs.arenaLock
      (len_pos_of_ready hr) (refillBytes_spec hle).1 (refillBytes_spec hle).2 (hsafe hrefill)
  obtain ⟨e', h', ptr, items', halloc, hready⟩ := allocHeapEx_returns vmmSpecialHeapGetMemory
    Env.given (e := { s.env with heapLock := true }) hr (show bytes ≤ 4294967264 by omega) hfuel
    fun hrefill => by
      obtain ⟨e', c, hg, hoffer, -⟩ := hget hrefill
      exact ⟨(e', c), hg, hoffer⟩
  have henv : ArenaOk e'.arena e'.given s.live ∧ e'.arenaLock = false := by
    rcases allocHeapEx_env halloc with rfl | ⟨hrefill, c, hg⟩
    · exact ⟨hs.arena, hs.arenaLock⟩
    · obtain ⟨e₁, c₁, hg₁, -, hok, hlock, -⟩ := hget hrefill
      obtain ⟨rfl, -⟩ := Prod.mk.inj (Except.ok.inj (hg.symm.trans hg₁))
      exact ⟨hok, hlock⟩
  refine ⟨_, ptr, by rw [allocVmmHeap_eq hs.heapLock, halloc]; rfl, henv.2, rfl,
    ⟨items', hready⟩, henv.1.mono fun r _ hmem => ?_⟩
  show r.node ∈ if ptr = 0 then s.live else ptr :: s.live
  split_ifs
  · exact hmem
  · exact List.mem_cons_of_mem ptr hmem

/-- A block that is in use is freed; the environment is as it was. -/
theorem freeVmmHeap_returns (hheap : s.env.heapLock = false) {items : List Item}
    (hr : Ready s.heap s.env.given s.live items) (hfuel : 4294967296 < fuel) {ptr : Nat}
    (hp : ptr ∈ s.live) :
    ∃ h' items', freeVmmHeap fuel s ptr = .ok ⟨s.env, h', s.live.erase ptr⟩ ∧
      Ready h' s.env.given (s.live.erase ptr) items' := by
  obtain ⟨h', items', hfree, hfreed⟩ := freeHeapEx_spec hr hp (show 2 ≤ fuel by omega)
  obtain ⟨⟨arena, arenaLock, heapLock, given⟩, heap, live⟩ := s
  obtain rfl : heapLock = false := hheap
  refine ⟨h', items', ?_, hfreed.ready⟩
  unfold freeVmmHeap acquireHeapLock Mem.Call.run
  simp only [Bool.false_eq_true, if_false, bind, Except.bind]
  simp only at hfree
  rw [hfree]
  rfl

theorem freeVmmHeap_inOrder (hs : InOrder s) (hfuel : 4294967296 < fuel) {ptr : Nat}
    (hp : ptr = 0 ∨ (ptr ∈ s.live ∧ ∀ r ∈ s.env.arena, r.node ≠ ptr)) :
    ∃ s', freeVmmHeap fuel s ptr = .ok s' ∧ InOrder s' := by
  obtain ⟨items, hr⟩ := hs.heap
  rcases hp with rfl | ⟨hp, hnodes⟩
  · obtain ⟨⟨arena, arenaLock, heapLock, given⟩, heap, live⟩ := s
    obtain rfl : heapLock = false := hs.heapLock
    refine ⟨⟨⟨arena, arenaLock, false, given⟩, heap, live.erase 0⟩, rfl, ?_⟩
    rw [List.erase_of_not_mem hr.zero_not_live]
    exact hs
  · obtain ⟨h', items', hfree, hr'⟩ := freeVmmHeap_returns hs.heapLock hr hfuel hp
    refine ⟨_, hfree, hs.arenaLock, hs.heapLock, ⟨items', hr'⟩, hs.arena.mono fun r hrm hmem => ?_⟩
    exact (List.mem_erase_of_ne (hnodes r hrm)).mpr hmem

theorem allocVirtEx_returns (hs : InOrder s) (hfuel : 4294967296 < fuel) :
    ∃ s' retv, allocVirtEx fuel s bytes = .ok (s', retv) ∧ InOrder s' := by
  obtain ⟨items, hr⟩ := hs.heap
  obtain ⟨arena, retv, curr, hscan, hok, -, hcurr, -⟩ :=
    scanArena_spec bytes hs.arena hs.arenaLock (len_pos_of_ready hr)
  have hs' : InOrder { s with env := { s.env with arena } } :=
    ⟨hs.arenaLock, hs.heapLock, ⟨items, hr⟩, hok⟩
  unfold allocVirtEx
  simp only [hscan, bind, Except.bind]
  cases curr with
  | none => exact ⟨_, retv, rfl, hs'⟩
  | some n =>
    obtain ⟨s', hfree, hs''⟩ := freeVmmHeap_inOrder hs' hfuel (Or.inr (hcurr n rfl))
    simp only [hfree]
    exact ⟨s', retv, rfl, hs''⟩

end Calls

/-! ## `FreeVirtEx` -/

section Free

variable {l : List VirtRange} {startAddr bytes : Nat}

theorem perm_behind (before : List Nat) (p a : Nat) (after : List Nat) :
    (before ++ p :: a :: after).Perm (a :: (before ++ p :: after)) := by
  have hmiddle := @List.perm_middle Nat a (before ++ [p]) after
  rwa [List.append_assoc, List.append_assoc, List.singleton_append, List.singleton_append]
    at hmiddle

/-- No range starts below, or `prev` is where the list is cut. -/
theorem nodes_eq (l : List VirtRange) (startAddr : Nat) :
    (Virt.prevOf l startAddr = none ∧
        l.map VirtRange.node = (Virt.currOf l startAddr).map VirtRange.node) ∨
      ∃ prev, Virt.prevOf l startAddr = some prev ∧ l.map VirtRange.node =
        (Virt.beforePrev l startAddr).map VirtRange.node ++
          prev.node :: (Virt.currOf l startAddr).map VirtRange.node := by
  have hcut : (l.takeWhile fun r => r.startAddr < startAddr) ++ Virt.currOf l startAddr = l :=
    List.takeWhile_append_dropWhile
  rcases Virt.scan_split l startAddr with ⟨hnil, hprev⟩ | ⟨prev, hprev, -, hpre⟩
  · rw [hnil, List.nil_append] at hcut
    exact Or.inl ⟨hprev, by rw [hcut]⟩
  · rw [hpre, List.append_assoc, List.singleton_append] at hcut
    refine Or.inr ⟨prev, hprev, ?_⟩
    rw [← List.map_cons, ← List.map_append, hcut]

/-- The nodes of the arena after the plan, and when a new one is needed. -/
theorem freePlan_spec (l : List VirtRange) (startAddr bytes : Nat) :
    match freePlan l startAddr bytes with
    | .mergeBoth curr l' =>
      (l.map VirtRange.node).Perm (curr :: l'.map VirtRange.node) ∧
        mergedLeft l startAddr = true
    | .mergeOne l' =>
      l'.map VirtRange.node = l.map VirtRange.node ∧
        (mergedLeft l startAddr = true ∨ mergedRight l startAddr
          (wadd startAddr (wmul (pagesFor bytes) pageSize)) = true)
    | .insert f =>
      (∀ n, ((f n).map VirtRange.node).Perm (n :: l.map VirtRange.node)) ∧
        mergedLeft l startAddr = false ∧ mergedRight l startAddr
          (wadd startAddr (wmul (pagesFor bytes) pageSize)) = false := by
  have hright : Virt.currOf l startAddr = [] → mergedRight l startAddr
      (wadd startAddr (wmul (pagesFor bytes) pageSize)) = false := by
    intro hcurr
    rw [mergedRight, hcurr]
  unfold freePlan
  rcases nodes_eq l startAddr with ⟨hprev, hnodes⟩ | ⟨prev, hprev, hnodes⟩
  · have hleft : mergedLeft l startAddr = false := by rw [mergedLeft, hprev]
    rw [hprev, hnodes]
    cases hcurr : Virt.currOf l startAddr with
    | nil => exact ⟨fun n => List.Perm.refl _, hleft, hright hcurr⟩
    | cons curr after =>
      dsimp only
      cases hm : mergedRight l startAddr (wadd startAddr (wmul (pagesFor bytes) pageSize)) with
      | true => exact ⟨rfl, Or.inr rfl⟩
      | false => exact ⟨fun n => List.Perm.refl _, hleft, rfl⟩
  · rw [hprev, hnodes]
    cases hcurr : Virt.currOf l startAddr with
    | nil =>
      dsimp only
      cases hleft : mergedLeft l startAddr with
      | true => exact ⟨by simp, Or.inl rfl⟩
      | false =>
        refine ⟨fun n => ?_, rfl, hright hcurr⟩
        rw [List.map_append]
        exact perm_behind _ _ n []
    | cons curr after =>
      dsimp only
      cases hleft : mergedLeft l startAddr with
      | true =>
        cases hm : mergedRight l startAddr (wadd startAddr (wmul (pagesFor bytes) pageSize)) with
        | true =>
          refine ⟨?_, rfl⟩
          rw [List.map_append]
          exact perm_behind ..
        | false => exact ⟨by simp, Or.inl rfl⟩
      | false =>
        cases hm : mergedRight l startAddr (wadd startAddr (wmul (pagesFor bytes) pageSize)) with
        | true => exact ⟨by simp, Or.inr rfl⟩
        | false =>
          refine ⟨fun n => ?_, rfl, rfl⟩
          rw [List.map_append]
          exact perm_behind ..

/-- What the arena is after `FreeVirtEx`, whatever node it takes. -/
theorem ArenaOk.put {arena : List VirtRange} {given : List Chunk} {live : List Nat}
    (h : ArenaOk arena given live) (live' : List Nat) (hpages : 0 < pagesFor bytes)
    (hstart : 0 < startAddr) (hend : startAddr + pagesFor bytes * 4096 ≤ 4294967296)
    (hfree : ∀ x, startAddr ≤ x → x < startAddr + pagesFor bytes * 4096 →
      cover VirtRange.span arena x = 0 ∧ cover Chunk.span given x = 0) (node : Nat)
    (hnodup : ((Virt.freeVirtEx arena startAddr bytes node).map VirtRange.node).Nodup)
    (hlive : ∀ n ∈ (Virt.freeVirtEx arena startAddr bytes node).map VirtRange.node, n ∈ live') :
    ArenaOk (Virt.freeVirtEx arena startAddr bytes node) given live' := by
  obtain ⟨hsep, hcover⟩ := Virt.freeVirtEx_spec node hpages hstart hend h.separated
    (fun r hr => (h.bounds r hr).2) fun x h1 h2 => (hfree x h1 h2).1
  refine ⟨hsep, bounds_of_cover hsep fun x hx => ?_, hnodup,
    fun r hr => hlive _ (List.mem_map_of_mem hr), fun x => ?_⟩
  · rw [hcover x] at hx
    by_cases hin : startAddr ≤ x ∧ x < startAddr + pagesFor bytes * 4096
    · exact ⟨by omega, by omega⟩
    · rw [hit, if_neg hin] at hx
      exact bounds_of_mem_cover h.bounds hx
  · have hx := h.apart x
    rw [hcover x]
    by_cases hin : startAddr ≤ x ∧ x < startAddr + pagesFor bytes * 4096
    · rw [hit, if_pos hin, (hfree x hin.1 hin.2).1, (hfree x hin.1 hin.2).2]
    · rwa [hit, if_neg hin]

variable {s : State} {fuel : Nat}

/-- With the lock of the arena free, `FreeVirtEx` does what it has planned. -/
theorem freeVirtEx_eq (hlock : s.env.arenaLock = false) :
    freeVirtEx fuel s startAddr bytes =
      match freePlan s.env.arena startAddr bytes with
      | .mergeBoth curr arena => freeVmmHeap fuel { s with env := { s.env with arena } } curr
      | .mergeOne arena => .ok { s with env := { s.env with arena } }
      | .insert freeList =>
        (allocVmmHeap fuel { s with env := { s.env with arenaLock := true } }
          sizeofVirtRange).map fun r =>
            { r.1 with env := releaseArenaLock { r.1.env with arena := freeList r.2 } } := by
  obtain ⟨⟨arena, arenaLock, heapLock, given⟩, heap, live⟩ := s
  obtain rfl : arenaLock = false := hlock
  unfold freeVirtEx
  simp only [acquireArenaLock, Bool.false_eq_true, if_false, bind, Except.bind]
  cases freePlan arena startAddr bytes with
  | mergeBoth curr l => rfl
  | mergeOne l => rfl
  | insert f =>
    dsimp only
    cases allocVmmHeap fuel ⟨⟨arena, true, heapLock, given⟩, heap, live⟩ sizeofVirtRange with
    | error f => rfl
    | ok r => rfl

theorem freeVirtEx_deadlock (hs : InOrder s)
    (hwaits : ¬ (Request.freeVirtEx startAddr bytes).Safe fuel s) :
    freeVirtEx fuel s startAddr bytes = .error .deadlock := by
  unfold Request.Safe at hwaits
  push Not at hwaits
  obtain ⟨hleft, hright, hrefill⟩ := hwaits
  have hplan := freePlan_spec s.env.arena startAddr bytes
  rw [freeVirtEx_eq hs.arenaLock]
  cases hp : freePlan s.env.arena startAddr bytes with
  | mergeBoth curr l =>
    rw [hp] at hplan
    rw [hplan.2] at hleft
    cases hleft
  | mergeOne l =>
    rw [hp] at hplan
    rcases hplan.2 with h | h
    · rw [h] at hleft
      cases hleft
    · rw [h] at hright
      cases hright
  | insert f =>
    dsimp only
    rw [allocVmmHeap_eq (s := { s with env := { s.env with arenaLock := true } }) hs.heapLock,
      allocHeapEx_error hrefill (f := .deadlock) rfl]
    rfl

theorem freeVirtEx_returns (hs : InOrder s) (hfuel : 4294967296 < fuel)
    (ha : (Request.freeVirtEx startAddr bytes).Allowed s)
    (hsafe : (Request.freeVirtEx startAddr bytes).Safe fuel s) :
    ∃ s', freeVirtEx fuel s startAddr bytes = .ok s' ∧ InOrder s' := by
  obtain ⟨hpages, hstart, hend, hfree⟩ := ha
  obtain ⟨items, hr⟩ := hs.heap
  have hplan := freePlan_spec s.env.arena startAddr bytes
  have hput (live' : List Nat) := hs.arena.put live' hpages hstart hend hfree
  have hnodes : ∀ n ∈ s.env.arena.map VirtRange.node, n ∈ s.live := by
    intro n hn
    obtain ⟨r, hrm, rfl⟩ := List.mem_map.mp hn
    exact hs.arena.live r hrm
  rw [freeVirtEx_eq hs.arenaLock]
  unfold Virt.freeVirtEx at hput
  cases hp : freePlan s.env.arena startAddr bytes with
  | mergeBoth curr l =>
    rw [hp] at hplan hput
    dsimp only at hplan hput ⊢
    have hnodup := List.nodup_cons.mp (hplan.1.nodup_iff.mp hs.arena.nodup)
    have hlive : ∀ n ∈ curr :: l.map VirtRange.node, n ∈ s.live :=
      fun n hn => hnodes n (hplan.1.mem_iff.mpr hn)
    have hok := hput s.live 0 hnodup.2 fun n hn => hlive n (List.mem_cons_of_mem _ hn)
    refine freeVmmHeap_inOrder (s := { s with env := { s.env with arena := l } })
      ⟨hs.arenaLock, hs.heapLock, ⟨items, hr⟩, hok⟩ hfuel
      (Or.inr ⟨hlive curr List.mem_cons_self, fun r hrm heq => ?_⟩)
    exact hnodup.1 (heq ▸ List.mem_map_of_mem hrm)
  | mergeOne l =>
    rw [hp] at hplan hput
    dsimp only at hplan hput ⊢
    have hok := hput s.live 0 (hplan.1 ▸ hs.arena.nodup) fun n hn => hnodes n (hplan.1 ▸ hn)
    exact ⟨_, rfl, hs.arenaLock, hs.heapLock, ⟨items, hr⟩, hok⟩
  | insert f =>
    rw [hp] at hplan hput
    dsimp only at hplan hput ⊢
    obtain ⟨hperm, hleft, hright⟩ := hplan
    have hrefill := hsafe hleft hright
    -- the heap does not need the arena, whose lock is held
    obtain ⟨e', h', ptr, items', halloc, hready⟩ := allocHeapEx_returns vmmSpecialHeapGetMemory
      Env.given (e := { s.env with arenaLock := true, heapLock := true }) hr
      (show sizeofVirtRange ≤ 4294967264 by decide) hfuel fun h => absurd h hrefill
    have hptr := allocHeapEx_ne_zero hr (show sizeofVirtRange ≠ 0 by decide) (by decide) hfuel
      hrefill halloc
    obtain rfl := (allocHeapEx_env halloc).resolve_right fun h => hrefill h.1
    rw [if_neg hptr] at hready
    have hnew := List.nodup_cons.mp (live_nodup_of_ready hready)
    have hok := hput (ptr :: s.live) ptr
      ((hperm ptr).nodup_iff.mpr (List.nodup_cons.mpr
        ⟨fun hn => hnew.1 (hnodes ptr hn), hs.arena.nodup⟩))
      fun n hn => by
        rcases List.mem_cons.mp ((hperm ptr).mem_iff.mp hn) with rfl | hn
        · exact List.mem_cons_self
        · exact List.mem_cons_of_mem ptr (hnodes n hn)
    rw [allocVmmHeap_eq (s := { s with env := { s.env with arenaLock := true } }) hs.heapLock,
      halloc]
    refine ⟨_, rfl, rfl, rfl, ⟨items', ?_⟩, ?_⟩
    · show Ready h' s.env.given (if ptr = 0 then s.live else ptr :: s.live) items'
      rw [if_neg hptr]
      exact hready
    · show ArenaOk (f ptr) s.env.given (if ptr = 0 then s.live else ptr :: s.live)
      rw [if_neg hptr]
      exact hok

end Free

/-! ## Runs -/

section Runs

variable {s s' : State} {fuel : Nat}

/-- The call returns, and what is returned to is in order. -/
theorem Request.run_returns (hs : InOrder s) (hfuel : 4294967296 < fuel) {r : Request}
    (ha : r.Allowed s) (hsafe : r.Safe fuel s) :
    ∃ s' v, r.run fuel s = .ok (s', v) ∧ InOrder s' := by
  cases r with
  | allocVmmHeap bytes => exact allocVmmHeap_returns hs hfuel ha hsafe
  | freeVmmHeap ptr =>
    obtain ⟨s', hfree, hs'⟩ := freeVmmHeap_inOrder hs hfuel ha
    exact ⟨s', 0, by rw [Request.run, hfree]; rfl, hs'⟩
  | allocVirtEx bytes => exact allocVirtEx_returns hs hfuel
  | freeVirtEx startAddr bytes =>
    obtain ⟨s', hfree, hs'⟩ := freeVirtEx_returns hs hfuel ha hsafe
    exact ⟨s', 0, by rw [Request.run, hfree]; rfl, hs'⟩
  | write ptr index value =>
    obtain ⟨items, hr⟩ := hs.heap
    obtain ⟨s', v, items', hserved⟩ : ∃ s' v items',
        Served vmmSpecialHeapGetMemory Env.given fuel (.write ptr index value) s items s' v
          items' :=
      write_served hr ha.1 ha.2.1 ha.2.2
    obtain ⟨rfl, rfl⟩ := Prod.mk.inj (Except.ok.inj hserved.run)
    exact ⟨_, 0, rfl, hs.arenaLock, hs.heapLock, ⟨items', hserved.ready⟩, hs.arena⟩
  | outside addr value =>
    obtain ⟨items, hr⟩ := hs.heap
    obtain ⟨s', v, items', hserved⟩ : ∃ s' v items',
        Served vmmSpecialHeapGetMemory Env.given fuel (.outside addr value) s items s' v items' :=
      outside_served hr ha.1 ha.2
    obtain ⟨rfl, rfl⟩ := Prod.mk.inj (Except.ok.inj hserved.run)
    exact ⟨_, 0, rfl, hs.arenaLock, hs.heapLock, ⟨items', hserved.ready⟩, hs.arena⟩

theorem Request.run_deadlock (hs : InOrder s) {r : Request} (hwaits : ¬ r.Safe fuel s) :
    r.run fuel s = .error .deadlock := by
  cases r with
  | allocVmmHeap bytes =>
    unfold Request.Safe at hwaits
    push Not at hwaits
    exact allocVmmHeap_deadlock hs hwaits.1 hwaits.2
  | freeVirtEx startAddr bytes =>
    rw [Request.run, freeVirtEx_deadlock hs hwaits]
    rfl
  | freeVmmHeap ptr => exact absurd trivial hwaits
  | allocVirtEx bytes => exact absurd trivial hwaits
  | write ptr index value => exact absurd trivial hwaits
  | outside addr value => exact absurd trivial hwaits

theorem Booted.inOrder (h : Booted s) : InOrder s := by
  obtain ⟨items, hr⟩ := h.heap
  obtain ⟨r, harena, hnode, hpages, hstart, hend, hapart⟩ := h.arena
  refine ⟨h.arenaLock, h.heapLock, h.heap, ?_⟩
  rw [harena]
  refine ⟨⟨List.pairwise_singleton _ _, ?_⟩, ?_, List.nodup_singleton _, ?_, fun x => ?_⟩
  · rintro q hq
    rwa [List.mem_singleton.mp hq]
  · rintro q hq
    rw [List.mem_singleton.mp hq]
    exact ⟨hstart, hend⟩
  · rintro q hq
    rwa [List.mem_singleton.mp hq]
  · rw [cover_cons, cover_nil, Nat.add_zero]
    show hit r.startAddr r.endAddr x + _ ≤ 1
    by_cases hin : r.startAddr ≤ x ∧ x < r.endAddr
    · have hout : cover Chunk.span s.env.given x = 0 := by
        rw [cover_eq_zero_iff]
        rintro c hc ⟨h1, h2⟩
        have h1 : c.base ≤ x := h1
        have h2 : x < c.base + c.len := h2
        have := hapart c hc
        omega
      rw [hout, Nat.add_zero, hit, if_pos hin]
    · rw [hit, if_neg hin, Nat.zero_add]
      exact hr.layout.once x

/-- Whatever is called, as long as the calls are safe, both locks are free between two calls. -/
theorem inOrder_of_reaches (hfuel : 4294967296 < fuel) {s₀ : State} (h0 : Booted s₀)
    (hrun : Reaches (SafeStep fuel) s₀ s) : InOrder s := by
  refine hrun.invariant h0.inOrder ?_
  rintro a b ha ⟨r, v, hallowed, hsafe, hrun⟩
  obtain ⟨b', v', hrun', hb⟩ := Request.run_returns ha hfuel hallowed hsafe
  obtain ⟨rfl, -⟩ := Prod.mk.inj (Except.ok.inj (hrun'.symm.trans hrun))
  exact hb

end Runs

/-! ## A small system -/

/-- The heap with the bootstrap page, which is at 4096, and one block for a node. -/
def bootHeap : HeapState Nat := after 1024 (.alloc sizeofVirtRange) (emptyHeap 0)

/-- The state after `InitKernelVirtArena`. -/
def withKernelArena (s : HeapState Nat) : State :=
  { env :=
      { arena := Virt.initVirtArena 5092 3355443200 805306368
        arenaLock := false
        heapLock := false
        given := fewGiven 1024 s.env }
    heap := s.heap
    live := s.live }

theorem withKernelArena_booted {s : HeapState Nat}
    (hs : Reachable (fewChunks 1024) (fewGiven 1024) 4294967297 s) (hnode : 5092 ∈ s.live)
    (henv : s.env = 1) : Booted (withKernelArena s) := by
  have hfresh : GivesFresh (fewChunks 1024) (fewGiven 1024) :=
    fewChunks_givesFresh (by decide) (by decide)
  have hheap := hs.ready hfresh (show 4294967296 < 4294967297 by decide)
  refine ⟨rfl, rfl, hheap, ⟨5092, 3355443200, 196608⟩, rfl, hnode,
    by decide, by decide, by decide, fun c hc => ?_⟩
  have hc : c ∈ fewGiven 1024 s.env := hc
  rw [henv] at hc
  rw [List.mem_singleton.mp hc]
  exact Or.inl (by decide)

def booted : State := withKernelArena bootHeap

theorem booted_booted : Booted booted :=
  withKernelArena_booted (after_reachable (by decide) (by decide)
    (emptyHeap_reachable (by decide)) (show sizeofVirtRange ≤ 4294967264 by decide))
    (by decide +kernel) (by decide)

/-- The state after a call that returns. -/
def afterRequest (r : Request) (s : State) : State :=
  match r.run 4294967297 s with
  | .ok (s', _) => s'
  | .error _ => s

theorem reaches_afterRequest {s₀ s : State} {r : Request} (h0 : Booted s₀)
    (hrun : Reaches (SafeStep 4294967297) s₀ s) (ha : r.Allowed s) (hsafe : r.Safe 4294967297 s) :
    Reaches (SafeStep 4294967297) s₀ (afterRequest r s) := by
  obtain ⟨s', v, hok, -⟩ :=
    Request.run_returns (inOrder_of_reaches (by decide) h0 hrun) (by decide) ha hsafe
  have hafter : afterRequest r s = s' := by
    unfold afterRequest
    rw [hok]
  exact hrun.tail ⟨r, v, ha, hsafe, hafter ▸ hok⟩

/-- The table of an address space is allocated. -/
def oneTable : State := afterRequest (.allocVmmHeap 512) booted

/-- Then two pages. -/
def twoPages : State := afterRequest (.allocVirtEx 4096) (afterRequest (.allocVirtEx 4096) oneTable)

/-- The first of them is free again: the first range has one page. -/
def onePageHole : State := afterRequest (.freeVirtEx 3355443200 4096) twoPages

theorem onePageHole_reached : Reaches (SafeStep 4294967297) booted onePageHole := by
  have htable : Reaches (SafeStep 4294967297) booted oneTable := by
    refine reaches_afterRequest booted_booted Relation.ReflTransGen.refl
      (show 512 ≤ 4294963168 by decide) fun hrefill => ?_
    have hfind : findFree 4294967297 booted.heap (roundUpSize 512) = .ok (some (4104, 22)) := by
      decide +kernel
    rw [hrefill.2] at hfind
    cases hfind
  have hone : Reaches (SafeStep 4294967297) booted (afterRequest (.allocVirtEx 4096) oneTable) :=
    reaches_afterRequest booted_booted htable trivial trivial
  have htwo : Reaches (SafeStep 4294967297) booted twoPages :=
    reaches_afterRequest booted_booted hone trivial trivial
  refine reaches_afterRequest booted_booted htwo
    ⟨by decide, by decide, by decide, fun x h1 h2 => ?_⟩ fun _ _ hrefill => ?_
  · have harena : twoPages.env.arena = [⟨5092, 3355451392, 196606⟩] := by decide +kernel
    have hgiven : twoPages.env.given = [⟨4096, 1024⟩] := by decide +kernel
    have hpages : pagesFor 4096 = 1 := by decide
    rw [hpages] at h2
    rw [harena, hgiven, cover_eq_zero_iff, cover_eq_zero_iff]
    constructor
    · rintro r hr ⟨h3, -⟩
      obtain rfl := List.mem_singleton.mp hr
      have h3 : 3355451392 ≤ x := h3
      omega
    · rintro c hc ⟨-, h4⟩
      obtain rfl := List.mem_singleton.mp hc
      have h4 : x < 4096 + 1024 := h4
      omega
  · have hfind : findFree 4294967297 twoPages.heap (roundUpSize sizeofVirtRange) =
        .ok (some (4104, 18)) := by decide +kernel
    rw [hrefill.2] at hfind
    cases hfind

/--
**When a call returns.** In every state that safe calls lead to after the start, a call returns if
and only if it is safe; the others wait for a lock that they hold themselves.
-/
theorem vmm_calls_return_iff {fuel : Nat} {s₀ s : State} {r : Request} (hfuel : 4294967296 < fuel)
    (h0 : Booted s₀) (hrun : Reaches (SafeStep fuel) s₀ s) (ha : r.Allowed s) :
    ((∃ s' v, r.run fuel s = .ok (s', v)) ↔ r.Safe fuel s) ∧
      (¬ r.Safe fuel s → r.run fuel s = .error .deadlock) := by
  have hs := inOrder_of_reaches hfuel h0 hrun
  refine ⟨⟨fun hreturns => ?_, fun hsafe => ?_⟩, Request.run_deadlock hs⟩
  · by_contra hwaits
    obtain ⟨s', v, hok⟩ := hreturns
    rw [Request.run_deadlock hs hwaits] at hok
    cases hok
  · obtain ⟨s', v, hok, -⟩ := Request.run_returns hs hfuel ha hsafe
    exact ⟨s', v, hok⟩

theorem vmm_calls_return_onePageHole :
    ((∃ s' v, (Request.allocVmmHeap 512).run 4294967297 onePageHole = .ok (s', v)) ↔
        (Request.allocVmmHeap 512).Safe 4294967297 onePageHole) ∧
      (¬ (Request.allocVmmHeap 512).Safe 4294967297 onePageHole →
        (Request.allocVmmHeap 512).run 4294967297 onePageHole = .error .deadlock) :=
  vmm_calls_return_iff (by decide) booted_booted onePageHole_reached
    (show 512 ≤ 4294963168 by decide)

/-- More memory for the heap is the page that was given back, whose node is to be freed. -/
theorem vmm_heap_waits_for_itself :
    ¬ ∀ (s : State) (r : Request), Reaches (SafeStep 4294967297) booted s → r.Allowed s →
      ∃ s' v, r.run 4294967297 s = .ok (s', v) := by
  intro h
  obtain ⟨s', v, hok⟩ := h onePageHole (.allocVmmHeap 512) onePageHole_reached
    (show 512 ≤ 4294963168 by decide)
  have hrefill : Refills 4294967297 onePageHole.heap 512 := ⟨by decide, by decide +kernel⟩
  have huse : UsesUp onePageHole.env.arena (pagesFor (refillBytes 512)) :=
    ⟨⟨4548, 3355443200, 1⟩, by decide +kernel, by decide⟩
  have hwaits : ¬ (Request.allocVmmHeap 512).Safe 4294967297 onePageHole :=
    fun hsafe => hsafe hrefill huse
  rw [Request.run_deadlock (inOrder_of_reaches (by decide) booted_booted onePageHole_reached)
    hwaits] at hok
  cases hok

end Nolrem.Vmm.Locks
