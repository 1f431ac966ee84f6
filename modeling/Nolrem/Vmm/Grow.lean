import Mathlib.Data.List.Nodup
import Nolrem.Virt.Arena

/-!
# Memory for the VMM heap

`VmmSpecialHeapGetMemory` of `kernel/mem/vmm.c`. What `AllocVirt` and the calls of `AllocPhys`
return are arguments; 0 is a failure.
-/

namespace Nolrem.Vmm.Grow

open Nolrem.Virt (pagesFor)

/-! ## The code -/

/-- `sizeof(vmm_heap_bootstrap_page)` -/
def bootstrapBytes : Nat := 1024

/-- What the allocators return. `AllocPhys` gives out pages that were free, so no page twice. -/
structure Answers where
  virt : Nat
  phys : Nat → Nat
  aligned : ∀ i, phys i % 4096 = 0
  different : ∀ i j, phys i ≠ 0 → phys i = phys j → i = j

/-- What a call returns, and what it did: the pages it mapped, each to which frame, and the frames
it took -/
structure Chunk where
  ret : Nat
  bytes : Nat
  mapped : List (Nat × Nat)
  frames : List Nat
deriving DecidableEq, Repr

/-- A round of the loop. `ArchMapKernelPageDirectly` drops the low bits of the frame. -/
def mapPage (virt : Nat) (phys : Nat → Nat) (i : Nat) : Nat × Nat :=
  (wadd virt (wmul i pageSize), phys i / 4096 * 4096)

/-- The frames of the first `pages` calls of `AllocPhys` that did not fail -/
def framesTaken (phys : Nat → Nat) (pages : Nat) : List Nat :=
  ((List.range pages).map phys).filter fun f => f ≠ 0

/-- `VmmSpecialHeapGetMemory`, where `bootstrapPage` is the address of the page that the kernel
image has for the first call. `none` is the assertion. After a call the page is used. -/
def vmmSpecialHeapGetMemory (bootstrapPage : Nat) (usedBootstrapPage : Bool) (bytes : Nat)
    (a : Answers) : Option Chunk :=
  if usedBootstrapPage = false then
    if bytes ≤ bootstrapBytes then some ⟨bootstrapPage, bootstrapBytes, [], []⟩ else none
  else
    let pages := pagesFor bytes
    some
      { ret := a.virt
        bytes := wmul pages pageSize
        mapped := (List.range pages).map (mapPage a.virt a.phys)
        frames := framesTaken a.phys pages }

/-! ## What it is for -/

/-- Each page of the chunk is mapped to a frame of its own that was taken for it. -/
structure Backed (c : Chunk) : Prop where
  pages : c.mapped.map Prod.fst =
    (List.range (c.bytes / 4096)).map fun i => wadd c.ret (wmul i pageSize)
  whole : c.bytes % 4096 = 0
  once : (c.mapped.map Prod.fst).Nodup
  different : (c.mapped.map Prod.snd).Nodup
  taken : ∀ m ∈ c.mapped, m.2 ∈ c.frames

/-- There is no memory and nothing was taken, or the chunk is large enough and backed; the first
chunk is that of the kernel image. No page is mapped to frame 0. -/
structure Grows (bootstrapPage bytes : Nat) (a : Answers) (c : Chunk) : Prop where
  notZero : ∀ m ∈ c.mapped, m.2 ≠ 0
  failed : c.ret = 0 → c.mapped = [] ∧ c.frames = [] ∧ a.virt = 0
  enough : c.ret ≠ 0 → bytes ≤ c.bytes
  backed : c.ret ≠ 0 → c.ret = bootstrapPage ∧ c.bytes = bootstrapBytes ∨ Backed c

/-! ## Pages -/

variable {a : Answers} {bytes n : Nat}

theorem pagesFor_eq (bytes : Nat) :
    pagesFor bytes = (bytes + 4095) % 4294967296 / 4096 := by
  unfold pagesFor wsub wadd pageSize
  omega

/-- The size of the chunk does not wrap. -/
theorem wmul_pagesFor (bytes : Nat) : wmul (pagesFor bytes) pageSize = pagesFor bytes * 4096 := by
  have hlt : pagesFor bytes < 1048576 := by
    unfold pagesFor wsub pageSize
    omega
  rw [pageSize, wmul_eq (by omega)]

/-- The pages of a chunk are different. -/
theorem pages_nodup (virt : Nat) (hn : n ≤ 1048576) :
    ((List.range n).map fun i => wadd virt (wmul i pageSize)).Nodup := by
  refine List.Nodup.map_on (fun i hi j hj h => ?_) List.nodup_range
  rw [List.mem_range] at hi hj
  unfold wadd wmul pageSize at h
  omega

/-! ## Frames -/

theorem frame_aligned (a : Answers) (i : Nat) : a.phys i / 4096 * 4096 = a.phys i := by
  have := a.aligned i
  omega

theorem mapped_frames (a : Answers) (n : Nat) :
    ((List.range n).map (mapPage a.virt a.phys)).map Prod.snd = (List.range n).map a.phys := by
  rw [List.map_map]
  exact List.map_congr_left fun i _ => frame_aligned a i

theorem mapped_pages (a : Answers) (n : Nat) :
    ((List.range n).map (mapPage a.virt a.phys)).map Prod.fst =
      (List.range n).map fun i => wadd a.virt (wmul i pageSize) := by
  rw [List.map_map]
  rfl

/-- Frames that were all found are different. -/
theorem frames_nodup (h : ∀ i < n, a.phys i ≠ 0) : ((List.range n).map a.phys).Nodup := by
  refine List.Nodup.map_on (fun i hi j _ hij => ?_) List.nodup_range
  exact a.different i j (h i (List.mem_range.mp hi)) hij

/-- A chunk whose frames were all found -/
theorem backed_of_found (h : ∀ i < pagesFor bytes, a.phys i ≠ 0) :
    Backed
      { ret := a.virt
        bytes := wmul (pagesFor bytes) pageSize
        mapped := (List.range (pagesFor bytes)).map (mapPage a.virt a.phys)
        frames := framesTaken a.phys (pagesFor bytes) } := by
  have hlt : pagesFor bytes ≤ 1048576 := by
    unfold pagesFor wsub pageSize
    omega
  refine ⟨?_, ?_, ?_, ?_, fun m hm => ?_⟩
  · dsimp only
    rw [mapped_pages, wmul_pagesFor, Nat.mul_div_cancel _ (by omega)]
  · dsimp only
    rw [wmul_pagesFor, Nat.mul_mod_left]
  · dsimp only
    rw [mapped_pages]
    exact pages_nodup _ hlt
  · dsimp only
    rw [mapped_frames]
    exact frames_nodup h
  · obtain ⟨i, hi, rfl⟩ := List.mem_map.mp hm
    have hi' := List.mem_range.mp hi
    refine List.mem_filter.mpr ⟨List.mem_map.mpr ⟨i, hi, (frame_aligned a i).symm⟩, ?_⟩
    simpa [mapPage, frame_aligned] using h i hi'

/-! ## Growing -/

/--
The VMM heap grows over memory that is there exactly when the first request fits the page of the
kernel image, or a later one gets a range of addresses and all of its frames. A failure of either
is not looked at. A request that wraps has no pages; it is answered well when there is no range.
-/
theorem vmm_special_heap_get_memory_iff (bootstrapPage : Nat) (usedBootstrapPage : Bool)
    (bytes : Nat) (a : Answers) (hpage : bootstrapPage ≠ 0) (hbytes : bytes < 4294967296) :
    (∃ c, vmmSpecialHeapGetMemory bootstrapPage usedBootstrapPage bytes a = some c ∧
        Grows bootstrapPage bytes a c) ↔
      (usedBootstrapPage = false ∧ bytes ≤ 1024) ∨
      (usedBootstrapPage = true ∧
        ((a.virt = 0 ∧ (bytes = 0 ∨ 4294963200 < bytes)) ∨
          (a.virt ≠ 0 ∧ bytes ≤ 4294963200 ∧ ∀ i < pagesFor bytes, a.phys i ≠ 0))) := by
  have hpages := pagesFor_eq bytes
  unfold vmmSpecialHeapGetMemory
  cases usedBootstrapPage with
  | false =>
    rw [if_pos rfl]
    by_cases hfits : bytes ≤ 1024
    · rw [if_pos (show bytes ≤ bootstrapBytes from hfits)]
      refine iff_of_true ⟨_, rfl, ?_⟩ (.inl ⟨rfl, hfits⟩)
      exact ⟨nofun, fun h => absurd h hpage, fun _ => hfits, fun _ => .inl ⟨rfl, rfl⟩⟩
    · rw [if_neg (show ¬ bytes ≤ bootstrapBytes from hfits)]
      refine iff_of_false (fun h => nomatch h.choose_spec.1) ?_
      rintro (h | h)
      · exact hfits h.2
      · cases h.1
  | true =>
    rw [if_neg (by decide)]
    dsimp only
    simp only [Option.some.injEq, exists_eq_left', Bool.true_eq_false, false_and, true_and,
      false_or]
    constructor
    · intro h
      have hfound : ∀ i < pagesFor bytes, a.phys i ≠ 0 := by
        intro i hi
        have := h.notZero _ (List.mem_map_of_mem (List.mem_range.mpr hi))
        rwa [mapPage, frame_aligned] at this
      by_cases hvirt : a.virt = 0
      · -- without a range there must be no page
        have hnone := (h.failed hvirt).1
        rw [List.map_eq_nil_iff, List.range_eq_nil] at hnone
        refine .inl ⟨hvirt, ?_⟩
        omega
      · refine .inr ⟨hvirt, ?_, hfound⟩
        have henough := h.enough hvirt
        dsimp only at henough
        rw [wmul_pagesFor] at henough
        omega
    · rintro (⟨hvirt, hb⟩ | ⟨hvirt, hb, hfound⟩)
      · have h0 : pagesFor bytes = 0 := by omega
        rw [h0]
        exact ⟨nofun, fun _ => ⟨rfl, rfl, hvirt⟩, fun h => absurd hvirt h, fun h => absurd hvirt h⟩
      · refine ⟨fun m hm => ?_, fun h => absurd h hvirt, fun _ => ?_, fun _ => .inr ?_⟩
        · obtain ⟨i, hi, rfl⟩ := List.mem_map.mp hm
          rw [mapPage, frame_aligned]
          exact hfound i (List.mem_range.mp hi)
        · dsimp only
          rw [wmul_pagesFor]
          omega
        · exact backed_of_found hfound

/-- A range of two pages, and two frames -/
def twoFrames : Answers where
  virt := 3489660928
  phys := fun i => (i + 1) * 4096
  aligned := fun i => by omega
  different := fun i j _ h => by omega

theorem vmm_special_heap_get_memory_iff_twoFrames :
    ∃ c, vmmSpecialHeapGetMemory 3222274048 true 5000 twoFrames = some c ∧
      Grows 3222274048 5000 twoFrames c :=
  (vmm_special_heap_get_memory_iff 3222274048 true 5000 twoFrames (by decide) (by decide)).mpr
    (.inr ⟨rfl, .inr ⟨by decide, by decide, fun i _ => Nat.mul_ne_zero (by omega) (by decide)⟩⟩)

/-- The second frame is missing. -/
def oneFrame : Answers where
  virt := 3489660928
  phys := fun i => if i = 0 then 4096 else 0
  aligned := fun i => by split <;> rfl
  different := fun i j hi h => by
    by_cases hi0 : i = 0
    · by_cases hj0 : j = 0
      · rw [hi0, hj0]
      · simp [hi0, hj0] at h
    · simp [hi0] at hi

/-- The second page of the chunk is mapped to frame 0. -/
theorem vmm_special_heap_get_memory_maps_zero :
    vmmSpecialHeapGetMemory 3222274048 true 5000 oneFrame =
        some ⟨3489660928, 8192, [(3489660928, 4096), (3489665024, 0)], [4096]⟩ ∧
      ¬ ∃ c, vmmSpecialHeapGetMemory 3222274048 true 5000 oneFrame = some c ∧
        Grows 3222274048 5000 oneFrame c := by
  have hret : vmmSpecialHeapGetMemory 3222274048 true 5000 oneFrame =
      some ⟨3489660928, 8192, [(3489660928, 4096), (3489665024, 0)], [4096]⟩ := by decide +kernel
  refine ⟨hret, ?_⟩
  rintro ⟨c, hc, h⟩
  rw [hret] at hc
  obtain rfl := Option.some.inj hc
  exact h.notZero (3489665024, 0) (by simp) rfl

end Nolrem.Vmm.Grow
