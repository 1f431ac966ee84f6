import Mathlib.Logic.Function.Basic
import Mathlib.Tactic.Common
import Nolrem.Lib.Transition

/-!
# Harvesting the accessed and dirty bits

`kernel/arch/x86/vmm/virt.c` reaches the page tables through the last entry of the directory,
which maps the directory itself. Memory is the words of each physical frame, so that what is
written through one table is seen in every table that lies in the same frame. The critical
sections of `kernel/mem/vmm.c` that harvest the bits are over it.
-/

namespace Nolrem.Vmm

open Nolrem.Lib

/-! ## The code -/

def pagePresent : BitVec 32 := 1#32 <<< 0
def pageWrite : BitVec 32 := 1#32 <<< 1
def pageUser : BitVec 32 := 1#32 <<< 2
def pageAccessed : BitVec 32 := 1#32 <<< 5
def pageDirty : BitVec 32 := 1#32 <<< 6
def pageGlobal : BitVec 32 := 1#32 <<< 8

def hasFlag (entry flag : BitVec 32) : Bool := entry &&& flag != 0#32

/-- The frame that an entry points to. -/
def frameOf (entry : BitVec 32) : Nat := (entry >>> 12).toNat

/-- The frame of the current directory, and the words of every frame. -/
structure PageTables where
  cr3 : Nat
  words : Nat → Nat → BitVec 32

def PageTables.setWord (pt : PageTables) (frame index : Nat) (entry : BitVec 32) : PageTables :=
  { pt with words := fun f i => if f = frame ∧ i = index then entry else pt.words f i }

/--
`GetRecursiveTable`: the frame that the processor finds at `0xFFC00000 + n * 4096`, by way of
the last entry of the directory.
-/
def getRecursiveTable (pt : PageTables) (n : Nat) : Nat :=
  frameOf (pt.words (frameOf (pt.words pt.cr3 1023)) n)

/-- `struct virt_page`; `phys` is the word that `origin` shares. -/
structure VirtPage where
  virt : Nat
  phys : BitVec 32
  present : Bool
  write : Bool
  user : Bool
  accessed : Bool
  dirty : Bool
  busy : Nat
deriving DecidableEq, Repr

/-- `level1_index` -/
def VirtPage.level1 (vp : VirtPage) : Nat := vp.virt / 4096 / 1024

/-- `level2_index` -/
def VirtPage.level2 (vp : VirtPage) : Nat := vp.virt / 4096 % 1024

/-- `TranslateToEntry` -/
def translateToEntry (vp : VirtPage) : BitVec 32 :=
  vp.phys &&& ~~~0xFFF#32 |||
    ((if vp.present && vp.busy = 0 then pagePresent else 0#32) |||
      (if vp.write then pageWrite else 0#32) ||| (if vp.user then pageUser else 0#32) |||
      (if 0xC0000000 ≤ vp.virt then pageGlobal else 0#32))

/-- `directory[level1_index] & PAGE_PRESENT` -/
def tablePresent (pt : PageTables) (level1 : Nat) : Bool :=
  hasFlag (pt.words (getRecursiveTable pt 1023) level1) pagePresent

/-- `ArchReadVirtDirtyAndAccessed` -/
def archReadVirtDirtyAndAccessed (pt : PageTables) (vp : VirtPage) : PageTables × VirtPage :=
  if tablePresent pt vp.level1 then
    let table := getRecursiveTable pt vp.level1
    let entry := pt.words table vp.level2
    -- `*table` is the first entry of the table
    (pt.setWord table 0 (pt.words table 0 &&& ~~~(pageDirty ||| pageAccessed)),
      { vp with dirty := hasFlag entry pageDirty, accessed := hasFlag entry pageAccessed })
  else (pt, vp)

/-- The new table of `SetPte`, in the frame that `AllocPhys` returned. -/
def mapTable (pt : PageTables) (level1 frame : Nat) : PageTables :=
  let pt := pt.setWord (getRecursiveTable pt 1023) level1
    (BitVec.ofNat 32 (frame * 4096) ||| pagePresent ||| pageWrite)
  let table := getRecursiveTable pt level1
  { pt with words := fun f i => if f = table ∧ i < 1024 then 0#32 else pt.words f i }

/-- `SetPte`, in the current address space; `frame` is what `AllocPhys` would return. -/
def setPte (pt : PageTables) (virt frame : Nat) (entry : BitVec 32) : PageTables :=
  let level1 := virt / 4096 / 1024
  let pt := if tablePresent pt level1 then pt else mapTable pt level1 frame
  pt.setWord (getRecursiveTable pt level1) (virt / 4096 % 1024) entry

/-- `SynchroniseVirt`, which is `ArchSyncVirt` -/
def synchroniseVirt (pt : PageTables) (vp : VirtPage) (frame : Nat) : PageTables :=
  setPte pt vp.virt frame (translateToEntry vp)

/-- `EnterCriticalVirt` -/
def enterCriticalVirt (pt : PageTables) (pp : Bool × BitVec 16) (vp : VirtPage) (frame : Nat) :
    PageTables × (Bool × BitVec 16) × VirtPage :=
  let busy := vp.busy
  let vp := { vp with busy := vp.busy + 1 }
  if busy = 0 then
    let (pt, vp) := archReadVirtDirtyAndAccessed pt vp
    let pp := (pp.1 || vp.dirty, if vp.accessed then pp.2 ||| 0x8000#16 else pp.2)
    let vp := { vp with accessed := false }
    (synchroniseVirt pt vp frame, pp, vp)
  else (pt, pp, vp)

/-- `LeaveCriticalVirt` -/
def leaveCriticalVirt (pt : PageTables) (vp : VirtPage) (frame : Nat) : PageTables × VirtPage :=
  let vp := { vp with busy := vp.busy - 1 }
  if vp.busy = 0 then (synchroniseVirt pt vp frame, vp) else (pt, vp)

/-- `DiscardVirt` -/
def discardVirt (pt : PageTables) (vp : VirtPage) (origin : BitVec 32) (frame : Nat) :
    PageTables × VirtPage :=
  let vp := { vp with present := false, phys := origin }
  (synchroniseVirt pt vp frame, vp)

/-! ## One harvest -/

/-- The page's own entry. -/
def ownEntry (pt : PageTables) (vp : VirtPage) : BitVec 32 :=
  pt.words (getRecursiveTable pt vp.level1) vp.level2

/-- A harvest reads and clears the page's own entry, and there is nothing else that it does. -/
structure HarvestsOwn (pt : PageTables) (vp : VirtPage) : Prop where
  read : (archReadVirtDirtyAndAccessed pt vp).2 =
    if tablePresent pt vp.level1 then
      { vp with
        dirty := hasFlag (ownEntry pt vp) pageDirty
        accessed := hasFlag (ownEntry pt vp) pageAccessed }
    else vp
  cleared : tablePresent pt vp.level1 = true →
    (archReadVirtDirtyAndAccessed pt vp).1.words (getRecursiveTable pt vp.level1) vp.level2 =
      ownEntry pt vp &&& ~~~(pageDirty ||| pageAccessed)
  kept : ∀ f i, tablePresent pt vp.level1 = false ∨ f ≠ getRecursiveTable pt vp.level1 ∨
    i ≠ vp.level2 → (archReadVirtDirtyAndAccessed pt vp).1.words f i = pt.words f i

/-- Neither bit is set. -/
def Unmarked (entry : BitVec 32) : Prop :=
  hasFlag entry pageDirty = false ∧ hasFlag entry pageAccessed = false

section Flags

variable {e : BitVec 32}

/-- A flag is a single bit. -/
theorem hasFlag_bit (e : BitVec 32) {k : Nat} (hk : k < 32) :
    hasFlag e (1#32 <<< k) = e.getLsbD k := by
  unfold hasFlag
  rw [← BitVec.twoPow_eq, BitVec.and_twoPow]
  have hpow : BitVec.twoPow 32 k ≠ 0#32 := by
    intro h
    have hbit := congrArg (fun b => b.getLsbD k) h
    simp [hk] at hbit
  cases e.getLsbD k <;> simp [hpow]

theorem hasFlag_dirty (e : BitVec 32) : hasFlag e pageDirty = e.getLsbD 6 :=
  hasFlag_bit e (by decide)

theorem hasFlag_accessed (e : BitVec 32) : hasFlag e pageAccessed = e.getLsbD 5 :=
  hasFlag_bit e (by decide)

theorem hasFlag_present (e : BitVec 32) : hasFlag e pagePresent = e.getLsbD 0 :=
  hasFlag_bit e (by decide)

theorem getLsbD_marks (k : Nat) :
    (pageDirty ||| pageAccessed).getLsbD k = (decide (k = 6) || decide (k = 5)) := by
  unfold pageDirty pageAccessed
  rw [← BitVec.twoPow_eq, ← BitVec.twoPow_eq, BitVec.getLsbD_or, BitVec.getLsbD_twoPow,
    BitVec.getLsbD_twoPow]
  simp [eq_comm]

/-- Clearing the two bits changes nothing exactly when neither is set. -/
theorem clear_marks_eq_iff : e &&& ~~~(pageDirty ||| pageAccessed) = e ↔ Unmarked e := by
  unfold Unmarked
  rw [hasFlag_dirty, hasFlag_accessed]
  constructor
  · intro h
    have h6 := congrArg (fun b => b.getLsbD 6) h
    have h5 := congrArg (fun b => b.getLsbD 5) h
    simp only [BitVec.getLsbD_and, BitVec.getLsbD_not, getLsbD_marks] at h6 h5
    exact ⟨by simpa using h6.symm, by simpa using h5.symm⟩
  · rintro ⟨h6, h5⟩
    refine BitVec.eq_of_getLsbD_eq fun k hk => ?_
    rw [BitVec.getLsbD_and, BitVec.getLsbD_not, getLsbD_marks]
    by_cases hk6 : k = 6
    · rw [hk6, h6]
      rfl
    · by_cases hk5 : k = 5
      · rw [hk5, h5]
        rfl
      · simp [hk, hk6, hk5]

end Flags

theorem PageTables.setWord_self (pt : PageTables) (frame index : Nat) (entry : BitVec 32) :
    (pt.setWord frame index entry).words frame index = entry := if_pos ⟨rfl, rfl⟩

theorem PageTables.setWord_of_ne (pt : PageTables) {frame index f i : Nat} (entry : BitVec 32)
    (h : f ≠ frame ∨ i ≠ index) : (pt.setWord frame index entry).words f i = pt.words f i :=
  if_neg fun hboth => h.elim (· hboth.1) (· hboth.2)

theorem PageTables.setWord_same (pt : PageTables) (frame index : Nat) :
    pt.setWord frame index (pt.words frame index) = pt := by
  unfold PageTables.setWord
  congr
  funext f i
  split
  · next hboth => rw [hboth.1, hboth.2]
  · rfl

/-- A harvest does what it is for when the first entry of the table is the page's own, or when
there is nothing to clear in either. -/
theorem harvestsOwn_iff (pt : PageTables) (vp : VirtPage) : HarvestsOwn pt vp ↔
    (tablePresent pt vp.level1 = true → vp.level2 = 0 ∨
      Unmarked (ownEntry pt vp) ∧ Unmarked (pt.words (getRecursiveTable pt vp.level1) 0)) := by
  have hread : (archReadVirtDirtyAndAccessed pt vp).2 =
      if tablePresent pt vp.level1 then
        { vp with
          dirty := hasFlag (ownEntry pt vp) pageDirty
          accessed := hasFlag (ownEntry pt vp) pageAccessed }
      else vp := by
    unfold archReadVirtDirtyAndAccessed
    split <;> rfl
  cases hpresent : tablePresent pt vp.level1 with
  | false =>
    have hsame : (archReadVirtDirtyAndAccessed pt vp).1 = pt := by
      simp [archReadVirtDirtyAndAccessed, hpresent]
    refine iff_of_true ⟨hread, fun h => ?_, fun f i _ => by rw [hsame]⟩ nofun
    rw [hpresent] at h
    cases h
  | true =>
    have hwords : (archReadVirtDirtyAndAccessed pt vp).1 =
        pt.setWord (getRecursiveTable pt vp.level1) 0
          (pt.words (getRecursiveTable pt vp.level1) 0 &&& ~~~(pageDirty ||| pageAccessed)) := by
      simp [archReadVirtDirtyAndAccessed, hpresent]
    constructor
    · intro h _
      by_cases hfirst : vp.level2 = 0
      · exact Or.inl hfirst
      · have hown := h.cleared hpresent
        have hzero := h.kept (getRecursiveTable pt vp.level1) 0 (Or.inr (Or.inr (Ne.symm hfirst)))
        rw [hwords, PageTables.setWord_of_ne _ _ (Or.inr hfirst)] at hown
        rw [hwords, PageTables.setWord_self] at hzero
        exact Or.inr ⟨clear_marks_eq_iff.mp hown.symm, clear_marks_eq_iff.mp hzero⟩
    · intro h
      refine ⟨hread, fun _ => ?_, fun f i hne => ?_⟩
      · rw [hwords]
        rcases h rfl with hfirst | ⟨hown, hzero⟩
        · unfold ownEntry
          rw [hfirst, PageTables.setWord_self]
        · rw [clear_marks_eq_iff.mpr hzero, clear_marks_eq_iff.mpr hown, PageTables.setWord_same]
          rfl
      · rw [hwords]
        rcases h rfl with hfirst | ⟨-, hzero⟩
        · refine PageTables.setWord_of_ne _ _ (hne.elim (fun h => ?_) fun h => ?_)
          · rw [hpresent] at h
            cases h
          · rwa [hfirst] at h
        · rw [clear_marks_eq_iff.mpr hzero, PageTables.setWord_same]

end Nolrem.Vmm
