import Nolrem.Virt.Arena
import Nolrem.Vmm.Mappings

/-!
# Allocating a range of memory

`AllocMemoryRange` of `kernel/mem/vmm.c`, for `AllocAnonMemory`, `AllocFixedMemory` and
`AllocFileMemory`. Each call of `AllocVmmHeap` succeeds or fails as an unknown function says. A
page and its origin belong to one slot only, so the slot holds them by value, with their counts
of references.
-/

namespace Nolrem.Vmm

open Nolrem.Lib Nolrem.Virt

/-! ## The code -/

/-- `struct page_origin`; a file is a number, and 0 is `NULL`. -/
structure PageOrigin where
  refs : Nat
  phys : Nat
  isFile : Bool
  fixed : Bool
  file : Nat
  fileOffset : Nat
  loader : Nat
deriving DecidableEq, Repr

/-- `struct virt_page` that was never present, with its origin -/
structure RangePage where
  refs : Nat
  virt : Nat
  origin : PageOrigin
  present : Bool
  write : Bool
  user : Bool
  executable : Bool
  accessed : Bool
  dirty : Bool
  fixed : Bool
  busy : Nat
deriving DecidableEq, Repr

/-- The arguments of `AllocMemoryRange`; `flags` are `VP_WRITE`, `VP_USER` and `VP_EXEC`. -/
structure RangeRequest where
  file : Nat
  fileOffset : Nat
  phys : Nat
  bytes : Nat
  write : Bool
  user : Bool
  exec : Bool
  loader : Nat
  fixed : Bool
deriving DecidableEq, Repr

structure RangeState where
  mappings : Mappings RangePage
  /-- The free ranges of the kernel's arena -/
  arena : List VirtRange
  /-- The references to each file -/
  fileRefs : Nat → Nat
  /-- How often `AllocVmmHeap` was called. -/
  heapCalls : Nat

def addFileRef (refs : Nat → Nat) (file : Nat) : Nat → Nat :=
  if file = 0 then refs else Function.update refs file (refs file + 1)

def dropFileRef (refs : Nat → Nat) (file : Nat) : Nat → Nat :=
  if file = 0 then refs else Function.update refs file (refs file - 1)

/-- `CreatePageOrigin`, once it has memory -/
def newPageOrigin (file fileOffset loader phys : Nat) (fixed : Bool) : PageOrigin :=
  { refs := 1, phys, isFile := file ≠ 0, fixed, file
    fileOffset := if file ≠ 0 then fileOffset else 0
    loader := if file ≠ 0 then loader else 0 }

/-- `DerefObject` on an origin, with `CleanupPageOrigin` -/
def derefPageOrigin (refs : Nat → Nat) (po : PageOrigin) : Nat → Nat :=
  if po.refs - 1 = 0 ∧ po.isFile = true then dropFileRef refs po.file else refs

/-- `DerefObject` on a page, with `CleanupVirtPage` -/
def derefVirtPage (refs : Nat → Nat) (vp : RangePage) : Nat → Nat :=
  if vp.refs - 1 = 0 ∧ vp.present = false then derefPageOrigin refs vp.origin else refs

/-- The page that `CreateVirtPage` puts into the slot. -/
def newVirtPage (req : RangeRequest) (virt fileOffset phys : Nat) : RangePage :=
  { refs := 1, virt, origin := newPageOrigin req.file fileOffset req.loader phys req.fixed
    present := false, write := req.write, user := req.user, executable := req.exec
    accessed := false, dirty := false, fixed := req.fixed, busy := 0 }

/-- `CreateVirtPage`, and whether it returned a page -/
def createVirtPage (heap : Nat → Bool) (st : RangeState) (req : RangeRequest)
    (virt fileOffset phys : Nat) : RangeState × Bool :=
  if req.write && req.exec then (st, false)
  else if heap st.heapCalls = false then ({ st with heapCalls := st.heapCalls + 1 }, false)
  else if heap (st.heapCalls + 1) = false then ({ st with heapCalls := st.heapCalls + 2 }, false)
  else
    let vp := newVirtPage req virt fileOffset phys
    let fileRefs := addFileRef st.fileRefs req.file
    let slot := createSlot heap (st.heapCalls + 2) st.mappings virt
    if slot.2.2 && (pageFromVirt slot.1 virt).isNone then
      ({ st with mappings := setSlot slot.1 virt (some vp), fileRefs, heapCalls := slot.2.1 }, true)
    else
      ({ st with
          mappings := slot.1, fileRefs := derefVirtPage fileRefs vp, heapCalls := slot.2.1 }, false)

/-- The body of the loop of `AllocMemoryRange`. -/
def createPage (heap : Nat → Bool) (st : RangeState) (req : RangeRequest) (base i : Nat) :
    RangeState × Bool :=
  createVirtPage heap st req (wadd base (wmul i 4096))
    (if req.file ≠ 0 then wadd req.fileOffset (wmul i 4096) else 0)
    (if req.phys ≠ 0 then wadd req.phys (wmul i 4096) else 0)

/-- The loop: `n` pages from page `i` on; the page that could not be created, if any. -/
def createPages (heap : Nat → Bool) (req : RangeRequest) (base : Nat) :
    Nat → Nat → RangeState → RangeState × Option Nat
  | 0, _, st => (st, none)
  | n + 1, i, st =>
    let (st', ok) := createPage heap st req base i
    if ok then createPages heap req base n (i + 1) st' else (st', some i)

/-- `UnwindVirtPages`: `n` pages from page `i` on -/
def unwindVirtPages (base : Nat) : Nat → Nat → RangeState → RangeState
  | 0, _, st => st
  | n + 1, i, st =>
    let virt := wadd base (wmul i 4096)
    match pageFromVirt st.mappings virt with
    | none => unwindVirtPages base n (i + 1) st
    | some vp => unwindVirtPages base n (i + 1)
        { st with
          mappings := setSlot st.mappings virt none
          fileRefs := derefVirtPage st.fileRefs vp }

/-- The arena is as its own invariant says; the pages of a range are whole. -/
structure ArenaOk (l : List VirtRange) : Prop where
  separated : Separated l
  within : ∀ r ∈ l, 0 < r.startAddr ∧ r.endAddr ≤ 4294967296
  aligned : ∀ r ∈ l, r.startAddr % 4096 = 0

/-! ## Creating pages -/

section Pages

variable {heap : Nat → Bool} {req : RangeRequest} {st st₀ st' : RangeState} {base i k n : Nat}

/-- The page at index `i`. -/
def pageAt (req : RangeRequest) (base i : Nat) : RangePage :=
  newVirtPage req (wadd base (wmul i 4096))
    (if req.file ≠ 0 then wadd req.fileOffset (wmul i 4096) else 0)
    (if req.phys ≠ 0 then wadd req.phys (wmul i 4096) else 0)

/-- The pages `i` to `k - 1` are there, and were not before. -/
structure Created (req : RangeRequest) (base : Nat) (st₀ st : RangeState) (i k : Nat) : Prop where
  pages : ∀ v, pageFromVirt st.mappings v =
    if base / 4096 + i ≤ v / 4096 ∧ v / 4096 < base / 4096 + k then
      some (pageAt req base (v / 4096 - base / 4096))
    else pageFromVirt st₀.mappings v
  empty : ∀ v, base / 4096 + i ≤ v / 4096 → v / 4096 < base / 4096 + k →
    pageFromVirt st₀.mappings v = none
  refs : ∀ f, st.fileRefs f = st₀.fileRefs f + if f = req.file ∧ f ≠ 0 then k - i else 0
  arena : st.arena = st₀.arena

theorem drop_addFileRef (refs : Nat → Nat) (file : Nat) :
    dropFileRef (addFileRef refs file) file = refs := by
  unfold dropFileRef addFileRef
  split
  · rfl
  · rw [Function.update_self, Function.update_idem, Nat.add_sub_cancel, Function.update_eq_self]

/-- A page that goes away takes its reference to the file with it. -/
theorem deref_newVirtPage (refs : Nat → Nat) (virt fileOffset phys : Nat) :
    derefVirtPage refs (newVirtPage req virt fileOffset phys) = dropFileRef refs req.file := by
  unfold derefVirtPage derefPageOrigin newVirtPage newPageOrigin dropFileRef
  by_cases hfile : req.file = 0 <;> simp [hfile]

theorem isSome_slotOf {m : Mappings RangePage} {v : Nat} {vp : RangePage}
    (h : pageFromVirt m v = some vp) : (slotOf m v).isSome = true := by
  unfold pageFromVirt at h
  cases hs : slotOf m v with
  | none => simp [hs] at h
  | some o => rfl

/-- What an unsuccessful `CreateVirtPage` leaves behind cannot be looked up. -/
theorem createVirtPage_fails {virt fileOffset phys : Nat}
    (h : (createVirtPage heap st req virt fileOffset phys).2 = false) :
    (∀ v, pageFromVirt (createVirtPage heap st req virt fileOffset phys).1.mappings v =
      pageFromVirt st.mappings v) ∧
    (createVirtPage heap st req virt fileOffset phys).1.fileRefs = st.fileRefs ∧
    (createVirtPage heap st req virt fileOffset phys).1.arena = st.arena := by
  unfold createVirtPage at *
  split
  · exact ⟨fun _ => rfl, rfl, rfl⟩
  · split
    · exact ⟨fun _ => rfl, rfl, rfl⟩
    · split
      · exact ⟨fun _ => rfl, rfl, rfl⟩
      · next h1 h2 h3 =>
        simp only [if_neg h1, if_neg h2, if_neg h3] at h
        simp only
        split
        · next hslot =>
          rw [if_pos hslot] at h
          cases h
        · refine ⟨(createSlot_spec ..).1, ?_, rfl⟩
          rw [deref_newVirtPage, drop_addFileRef]

theorem createVirtPage_succeeds {virt fileOffset phys : Nat}
    (h : (createVirtPage heap st req virt fileOffset phys).2 = true) :
    (∀ v, pageFromVirt (createVirtPage heap st req virt fileOffset phys).1.mappings v =
      if v / 4096 = virt / 4096 then some (newVirtPage req virt fileOffset phys)
      else pageFromVirt st.mappings v) ∧
    pageFromVirt st.mappings virt = none ∧
    (createVirtPage heap st req virt fileOffset phys).1.fileRefs =
      addFileRef st.fileRefs req.file ∧
    (createVirtPage heap st req virt fileOffset phys).1.arena = st.arena := by
  unfold createVirtPage at *
  split at h
  · cases h
  · next h1 =>
    split at h
    · cases h
    · next h2 =>
      split at h
      · cases h
      · next h3 =>
        simp only [if_neg h1, if_neg h2, if_neg h3] at h ⊢
        split at h
        · next hslot =>
          simp only [if_pos hslot]
          obtain ⟨hreach, hnone⟩ := Bool.and_eq_true_iff.mp hslot
          obtain ⟨hsame, hsome⟩ := createSlot_spec heap (st.heapCalls + 2) st.mappings virt
          refine ⟨fun v => ?_, ?_, trivial, trivial⟩
          · rw [pageFromVirt_setSlot (hsome hreach), hsame]
          · rw [← hsame]
            exact Option.isNone_iff_eq_none.mp hnone
        · cases h

theorem page_eq (halign : base % 4096 = 0) (hend : base + i * 4096 < 4294967296) :
    wadd base (wmul i 4096) / 4096 = base / 4096 + i := by
  rw [wmul_eq (by omega), wadd_eq (by omega)]
  omega

/-- One page more, or the same pages. -/
theorem Created.createPage (heap : Nat → Bool) (h : Created req base st₀ st 0 i) (halign : base % 4096 = 0)
    (hend : base + i * 4096 < 4294967296) :
    ((Vmm.createPage heap st req base i).2 = true →
      Created req base st₀ (Vmm.createPage heap st req base i).1 0 (i + 1)) ∧
    ((Vmm.createPage heap st req base i).2 = false →
      Created req base st₀ (Vmm.createPage heap st req base i).1 0 i) := by
  have hpage := page_eq halign hend
  constructor
  · intro hok
    obtain ⟨hpages, hnone, hrefs, harena⟩ := createVirtPage_succeeds hok
    rw [hpage] at hpages
    have hold := h.pages (wadd base (wmul i 4096))
    rw [hpage, if_neg (by omega)] at hold
    have hempty : ∀ v, v / 4096 = base / 4096 + i → pageFromVirt st₀.mappings v = none := by
      intro v hv
      have hv' := h.pages v
      rw [if_neg (by omega)] at hv'
      rw [← hv']
      unfold pageFromVirt slotOf mapLevel1 mapLevel2 mapLevel3 at hnone ⊢
      rw [hpage] at hnone
      rw [hv]
      exact hnone
    refine ⟨fun v => (hpages v).trans ?_, fun v h1 h2 => ?_, fun f => ?_, harena.trans h.arena⟩
    · by_cases hv : v / 4096 = base / 4096 + i
      · have hin : base / 4096 + 0 ≤ v / 4096 ∧ v / 4096 < base / 4096 + (i + 1) := by omega
        rw [if_pos hv, if_pos hin, hv, Nat.add_sub_cancel_left]
        rfl
      · rw [if_neg hv, h.pages v]
        by_cases hin : base / 4096 + 0 ≤ v / 4096 ∧ v / 4096 < base / 4096 + i
        · rw [if_pos hin, if_pos (by omega)]
        · rw [if_neg hin, if_neg (by omega)]
    · by_cases hv : v / 4096 = base / 4096 + i
      · exact hempty v hv
      · exact h.empty v h1 (by omega)
    · show (createVirtPage heap st req _ _ _).1.fileRefs f = _
      rw [hrefs]
      have hf := h.refs f
      unfold addFileRef
      by_cases hfile : req.file = 0
      · rw [if_pos hfile, hf, if_neg (by omega), if_neg (by omega)]
      · rw [if_neg hfile, Function.update_apply]
        by_cases hff : f = req.file
        · subst hff
          rw [if_pos rfl, hf, if_pos ⟨rfl, hfile⟩, if_pos ⟨rfl, hfile⟩]
          omega
        · rw [if_neg hff, hf, if_neg (by tauto), if_neg (by tauto)]
  · intro hfail
    obtain ⟨hpages, hrefs, harena⟩ := createVirtPage_fails hfail
    exact ⟨fun v => (hpages v).trans (h.pages v), h.empty,
      fun f => (congrFun hrefs f).trans (h.refs f), harena.trans h.arena⟩

/-- The loop. -/
theorem Created.createPages (heap : Nat → Bool) (h : Created req base st₀ st 0 i) (halign : base % 4096 = 0)
    (hend : base + (i + n) * 4096 ≤ 4294967296) :
    ((Vmm.createPages heap req base n i st).2 = none →
      Created req base st₀ (Vmm.createPages heap req base n i st).1 0 (i + n)) ∧
    ∀ k, (Vmm.createPages heap req base n i st).2 = some k → k < i + n ∧
      Created req base st₀ (Vmm.createPages heap req base n i st).1 0 k := by
  induction n generalizing i st with
  | zero => exact ⟨fun _ => h, nofun⟩
  | succ n ih =>
    have hnow : base + i * 4096 < 4294967296 := by omega
    have hnext : base + (i + 1 + n) * 4096 ≤ 4294967296 := by
      rw [Nat.add_right_comm i 1 n]
      exact hend
    have hpages := h.createPage heap halign hnow
    obtain ⟨hok, hfail⟩ := hpages
    unfold Vmm.createPages
    cases hres : (Vmm.createPage heap st req base i).2 with
    | true =>
      have heq : Vmm.createPage heap st req base i =
          ((Vmm.createPage heap st req base i).1, true) := by rw [← hres]
      rw [heq]
      simp only [if_true]
      obtain ⟨h1, h2⟩ := ih (hok hres) hnext
      rw [show i + (n + 1) = i + 1 + n from Nat.add_right_comm i n 1]
      exact ⟨h1, h2⟩
    | false =>
      have heq : Vmm.createPage heap st req base i =
          ((Vmm.createPage heap st req base i).1, false) := by rw [← hres]
      rw [heq]
      simp only [Bool.false_eq_true, if_false]
      refine ⟨nofun, fun k hk => ?_⟩
      cases hk
      exact ⟨by omega, hfail hres⟩

/-- `UnwindVirtPages` takes the pages back out. -/
theorem Created.unwindVirtPages (h : Created req base st₀ st i (i + n)) (halign : base % 4096 = 0)
    (hend : base + (i + n) * 4096 ≤ 4294967296) :
    Created req base st₀ (Vmm.unwindVirtPages base n i st) (i + n) (i + n) := by
  induction n generalizing i st with
  | zero => exact h
  | succ n ih =>
    have hnow : base + i * 4096 < 4294967296 := by omega
    have hnext : base + (i + 1 + n) * 4096 ≤ 4294967296 := by
      rw [Nat.add_right_comm i 1 n]
      exact hend
    have hpage := page_eq (i := i) halign hnow
    have hfound : pageFromVirt st.mappings (wadd base (wmul i 4096)) =
        some (pageAt req base i) := by
      rw [h.pages, hpage, if_pos (by omega), Nat.add_sub_cancel_left]
    unfold Vmm.unwindVirtPages
    simp only [hfound]
    rw [show i + (n + 1) = i + 1 + n from Nat.add_right_comm i n 1]
    refine ih ⟨fun v => ?_, fun v h1 h2 => h.empty v (by omega) (by omega), fun f => ?_, h.arena⟩
      hnext
    · rw [pageFromVirt_setSlot (isSome_slotOf hfound), hpage]
      by_cases hv : v / 4096 = base / 4096 + i
      · rw [if_pos hv, if_neg (by omega), h.empty v (by omega) (by omega)]
      · rw [if_neg hv, h.pages v]
        by_cases hin : base / 4096 + i ≤ v / 4096 ∧ v / 4096 < base / 4096 + (i + (n + 1))
        · rw [if_pos hin, if_pos (by omega)]
        · rw [if_neg hin, if_neg (by omega)]
    · show derefVirtPage st.fileRefs (pageAt req base i) f = _
      unfold pageAt
      rw [deref_newVirtPage]
      have hf := h.refs f
      unfold dropFileRef
      by_cases hfile : req.file = 0
      · rw [if_pos hfile, hf, if_neg (by omega), if_neg (by omega)]
      · rw [if_neg hfile, Function.update_apply]
        by_cases hff : f = req.file
        · subst hff
          rw [if_pos rfl, hf, if_pos ⟨rfl, hfile⟩, if_pos ⟨rfl, hfile⟩]
          omega
        · rw [if_neg hff, hf, if_neg (by tauto), if_neg (by tauto)]

end Pages

/-! ## The range in the arena -/

section Arena

variable {l l' : List VirtRange} {retv pages : Nat}

/-- The range that `AllocVirt` takes for whole pages. -/
structure Taken (l l' : List VirtRange) (retv pages : Nat) : Prop where
  pos : 0 < retv
  aligned : retv % 4096 = 0
  fits : retv + pages * 4096 ≤ 4294967296
  separated : Separated l'
  within : ∀ r ∈ l', r.endAddr ≤ 4294967296
  cover_eq : ∀ x, cover VirtRange.span l x =
    cover VirtRange.span l' x + hit retv (retv + pages * 4096) x
  free : ∀ x, retv ≤ x → x < retv + pages * 4096 → cover VirtRange.span l' x = 0

end Arena

/-! ## All or nothing -/

/-- The pages that `bytes` bytes take can be counted, and a fixed range at 0 is one page. -/
def RequestOk (req : RangeRequest) : Prop :=
  req.bytes ≤ 4294963200 ∧
    (req.fixed = true → req.phys = 0 →
      req.bytes ≤ 4096 ∨ (req.write = true ∧ req.exec = true))

/--
When a request works out: there is no room for it, or it is one of the above, and there is a node
to give the range back when it uses up the free range it is taken from.
-/
def CallOk (arena : List VirtRange) (node : Option Nat) (req : RangeRequest) : Prop :=
  req.bytes ≠ 0 → ∀ r, arena.find? (fun r => pagesFor req.bytes ≤ r.pages) = some r →
    RequestOk req ∧ (r.pages = pagesFor req.bytes → node.isSome = true)

section Request

variable {req : RangeRequest} {arena l' : List VirtRange} {node : Option Nat} {base : Nat}

end Request

end Nolrem.Vmm
