import Nolrem.Vmm.Harvest

/-!
# Runs of critical sections

The pages of the current address space, the processor that marks the entries of the pages it
uses, and the critical sections that harvest the marks.
-/

namespace Nolrem.Vmm

open Nolrem.Lib

/-! ## What the tables map -/

/-- The entry at two indices, when there is a table for it. -/
def entryAt (pt : PageTables) (level1 level2 : Nat) : Option (BitVec 32) :=
  if tablePresent pt level1 then some (pt.words (getRecursiveTable pt level1) level2) else none

/-- The directory maps itself, and each other table has a frame of its own. -/
structure Separate (pt : PageTables) : Prop where
  recursive : frameOf (pt.words pt.cr3 1023) = pt.cr3
  directory : ∀ l < 1023, tablePresent pt l = true → getRecursiveTable pt l ≠ pt.cr3
  distinct : ∀ l < 1023, ∀ l' < 1023, tablePresent pt l = true → tablePresent pt l' = true →
    getRecursiveTable pt l = getRecursiveTable pt l' → l = l'

/-- The two states have their tables in the same frames. -/
structure SameTables (pt pt' : PageTables) : Prop where
  cr3 : pt'.cr3 = pt.cr3
  table : ∀ l, getRecursiveTable pt' l = getRecursiveTable pt l
  present : ∀ l, tablePresent pt' l = tablePresent pt l

/-- A frame that can become a table: what `AllocPhys` returns is not in use. -/
structure UnusedFrame (pt : PageTables) (frame : Nat) : Prop where
  small : frame < 1048576
  directory : frame ≠ pt.cr3
  tables : ∀ l < 1023, tablePresent pt l = true → getRecursiveTable pt l ≠ frame

section Tables

variable {pt : PageTables} {l i frame : Nat} {e : BitVec 32}

theorem table_eq (h : frameOf (pt.words pt.cr3 1023) = pt.cr3) (l : Nat) :
    getRecursiveTable pt l = frameOf (pt.words pt.cr3 l) := by
  unfold getRecursiveTable
  rw [h]

theorem tablePresent_eq (h : frameOf (pt.words pt.cr3 1023) = pt.cr3) (l : Nat) :
    tablePresent pt l = hasFlag (pt.words pt.cr3 l) pagePresent := by
  unfold tablePresent
  rw [table_eq h, h]

/-- A write into a table, directory and other tables being where they were. -/
theorem Separate.setWord (h : Separate pt) (hl : l < 1023) (hp : tablePresent pt l = true) :
    SameTables pt (pt.setWord (getRecursiveTable pt l) i e) ∧
      Separate (pt.setWord (getRecursiveTable pt l) i e) ∧
      ∀ l' < 1023, ∀ i', entryAt (pt.setWord (getRecursiveTable pt l) i e) l' i' =
        if l' = l ∧ i' = i then some e else entryAt pt l' i' := by
  have hdir : ∀ k, (pt.setWord (getRecursiveTable pt l) i e).words pt.cr3 k = pt.words pt.cr3 k :=
    fun k => PageTables.setWord_of_ne _ _ (Or.inl (h.directory l hl hp).symm)
  have hrec : frameOf ((pt.setWord (getRecursiveTable pt l) i e).words pt.cr3 1023) = pt.cr3 := by
    rw [hdir, h.recursive]
  have htable : ∀ k, getRecursiveTable (pt.setWord (getRecursiveTable pt l) i e) k =
      getRecursiveTable pt k := by
    intro k
    rw [table_eq hrec, table_eq h.recursive k]
    exact congrArg frameOf (hdir k)
  have hpresent : ∀ k, tablePresent (pt.setWord (getRecursiveTable pt l) i e) k =
      tablePresent pt k := by
    intro k
    rw [tablePresent_eq hrec, tablePresent_eq h.recursive]
    exact congrArg (hasFlag · pagePresent) (hdir k)
  refine ⟨⟨rfl, htable, hpresent⟩, ⟨hrec, fun k hk hkp => ?_, fun k hk k' hk' hkp hkp' heq => ?_⟩, fun l' hl' i' => ?_⟩
  · rw [htable]
    rw [hpresent] at hkp
    exact h.directory k hk hkp
  · rw [htable, htable] at heq
    rw [hpresent] at hkp hkp'
    exact h.distinct k hk k' hk' hkp hkp' heq
  · unfold entryAt
    rw [hpresent, htable]
    by_cases hboth : l' = l ∧ i' = i
    · obtain ⟨rfl, rfl⟩ := hboth
      rw [if_pos hp, if_pos ⟨rfl, rfl⟩, PageTables.setWord_self]
    · rw [if_neg hboth]
      cases hp' : tablePresent pt l' with
      | false => rfl
      | true =>
        have hne : getRecursiveTable pt l' ≠ getRecursiveTable pt l ∨ i' ≠ i := by
          by_contra hsame
          push Not at hsame
          exact hboth ⟨h.distinct l' hl' l hl hp' hp hsame.1, hsame.2⟩
        rw [PageTables.setWord_of_ne _ _ hne]

theorem frameOf_newTable (h : frame < 1048576) :
    frameOf (BitVec.ofNat 32 (frame * 4096) ||| pagePresent ||| pageWrite) = frame := by
  have hlow : ((pagePresent ||| pageWrite) >>> 12) = 0#32 := by decide
  unfold frameOf
  rw [BitVec.or_assoc, BitVec.ushiftRight_or_distrib, hlow, BitVec.or_zero,
    BitVec.toNat_ushiftRight, BitVec.toNat_ofNat, Nat.shiftRight_eq_div_pow]
  omega

theorem hasFlag_newTable (frame : Nat) :
    hasFlag (BitVec.ofNat 32 (frame * 4096) ||| pagePresent ||| pageWrite) pagePresent = true := by
  rw [hasFlag_present, BitVec.getLsbD_or, BitVec.getLsbD_or]
  have hbit : pagePresent.getLsbD 0 = true := by decide
  rw [hbit, Bool.or_true, Bool.true_or]

/-- A new table is empty, and the others are where they were. -/
theorem Separate.mapTable (h : Separate pt) (hl : l < 1023) (hf : UnusedFrame pt frame) :
    Separate (Vmm.mapTable pt l frame) ∧ tablePresent (Vmm.mapTable pt l frame) l = true ∧
      ∀ l' < 1023, ∀ i' < 1024, entryAt (Vmm.mapTable pt l frame) l' i' =
        if l' = l then some 0#32 else entryAt pt l' i' := by
  -- the directory and the words of the new state
  have hcr3 : (Vmm.mapTable pt l frame).cr3 = pt.cr3 := rfl
  have h1023 : getRecursiveTable pt 1023 = pt.cr3 := (table_eq h.recursive 1023).trans h.recursive
  set entry := BitVec.ofNat 32 (frame * 4096) ||| pagePresent ||| pageWrite with hentry
  have hnewTable : getRecursiveTable (pt.setWord pt.cr3 l entry) l = frame := by
    unfold getRecursiveTable
    have hlast : (pt.setWord pt.cr3 l entry).words pt.cr3 1023 = pt.words pt.cr3 1023 :=
      PageTables.setWord_of_ne _ _ (Or.inr (by omega))
    show frameOf ((pt.setWord pt.cr3 l entry).words
      (frameOf ((pt.setWord pt.cr3 l entry).words pt.cr3 1023)) l) = frame
    rw [hlast, h.recursive, PageTables.setWord_self]
    exact frameOf_newTable hf.small
  have hwords : ∀ f k, (Vmm.mapTable pt l frame).words f k =
      if f = frame ∧ k < 1024 then 0#32 else
        if f = pt.cr3 ∧ k = l then entry else pt.words f k := by
    intro f k
    unfold Vmm.mapTable
    rw [h1023]
    simp only [← hentry, hnewTable]
    rfl
  have hdir : ∀ k, (Vmm.mapTable pt l frame).words pt.cr3 k =
      if k = l then entry else pt.words pt.cr3 k := by
    intro k
    rw [hwords, if_neg (fun hboth => hf.directory hboth.1.symm)]
    simp only [true_and]
  have hrec : frameOf ((Vmm.mapTable pt l frame).words pt.cr3 1023) = pt.cr3 := by
    rw [hdir, if_neg (by omega), h.recursive]
  have htable : ∀ k, getRecursiveTable (Vmm.mapTable pt l frame) k =
      if k = l then frame else getRecursiveTable pt k := by
    intro k
    rw [table_eq hrec, table_eq h.recursive, hcr3, hdir]
    split
    · exact frameOf_newTable hf.small
    · rfl
  have hpresent : ∀ k, tablePresent (Vmm.mapTable pt l frame) k =
      if k = l then true else tablePresent pt k := by
    intro k
    rw [tablePresent_eq hrec, tablePresent_eq h.recursive, hcr3, hdir]
    split
    · exact hasFlag_newTable frame
    · rfl
  refine ⟨⟨by rw [hcr3]; exact hrec, fun k hk hkp => ?_, fun k hk k' hk' hkp hkp' heq => ?_⟩,
    by rw [hpresent, if_pos rfl], fun l' hl' i' hi' => ?_⟩
  · rw [htable, hcr3]
    rw [hpresent] at hkp
    split at hkp
    · next hkl =>
      rw [if_pos hkl]
      exact hf.directory
    · next hkl =>
      rw [if_neg hkl]
      exact h.directory k hk hkp
  · rw [htable, htable] at heq
    rw [hpresent] at hkp hkp'
    grind [UnusedFrame, Separate]
  · unfold entryAt
    rw [hpresent, htable]
    by_cases hll : l' = l
    · rw [if_pos hll, if_pos hll, if_pos hll, if_pos rfl, hwords, if_pos ⟨rfl, hi'⟩]
    · rw [if_neg hll, if_neg hll, if_neg hll]
      cases hp' : tablePresent pt l' with
      | false => rfl
      | true =>
        rw [if_pos rfl, if_pos rfl, hwords,
          if_neg (fun hboth => hf.tables l' hl' hp' hboth.1),
          if_neg (fun hboth => h.directory l' hl' hp' hboth.1)]

/-- `SetPte` writes the one entry; a table that it had to map is empty elsewhere. -/
theorem Separate.setPte (h : Separate pt) {virt : Nat} (hl : virt / 4096 / 1024 < 1023)
    (hf : UnusedFrame pt frame) :
    Separate (Vmm.setPte pt virt frame e) ∧
      ∀ l' < 1023, ∀ i' < 1024, entryAt (Vmm.setPte pt virt frame e) l' i' =
        if l' = virt / 4096 / 1024 ∧ i' = virt / 4096 % 1024 then some e
        else if l' = virt / 4096 / 1024 then some ((entryAt pt l' i').getD 0#32)
        else entryAt pt l' i' := by
  cases hp : tablePresent pt (virt / 4096 / 1024) with
  | true =>
    obtain ⟨-, hsep, hentry⟩ := h.setWord (i := virt / 4096 % 1024) (e := e) hl hp
    have heq : Vmm.setPte pt virt frame e = pt.setWord (getRecursiveTable pt (virt / 4096 / 1024))
        (virt / 4096 % 1024) e := by
      unfold Vmm.setPte
      simp only [hp, if_true]
    rw [heq]
    refine ⟨hsep, fun l' hl' i' _ => ?_⟩
    rw [hentry l' hl' i']
    split
    · rfl
    · split
      · next hll =>
        unfold entryAt
        rw [hll, if_pos hp]
        rfl
      · rfl
  | false =>
    obtain ⟨hsep, hnow, hmap⟩ := h.mapTable hl hf
    obtain ⟨-, hsep', hentry⟩ := hsep.setWord (i := virt / 4096 % 1024) (e := e) hl hnow
    have heq : Vmm.setPte pt virt frame e =
        (Vmm.mapTable pt (virt / 4096 / 1024) frame).setWord
          (getRecursiveTable (Vmm.mapTable pt (virt / 4096 / 1024) frame) (virt / 4096 / 1024))
          (virt / 4096 % 1024) e := by
      unfold Vmm.setPte
      simp only [hp, Bool.false_eq_true, if_false]
    rw [heq]
    refine ⟨hsep', fun l' hl' i' hi' => ?_⟩
    rw [hentry l' hl' i', hmap l' hl' i' hi']
    split
    · rfl
    · split
      · next hll =>
        unfold entryAt
        rw [hll, hp]
        rfl
      · rfl

theorem UnusedFrame.sameTables {pt' : PageTables} (hf : UnusedFrame pt frame)
    (h : SameTables pt pt') : UnusedFrame pt' frame := by
  refine ⟨hf.small, ?_, fun l hl hp => ?_⟩
  · rw [h.cr3]
    exact hf.directory
  · rw [h.table]
    rw [h.present] at hp
    exact hf.tables l hl hp

/-- What a harvest does to the tables: it clears the marks of the first entry. -/
theorem Separate.archRead (h : Separate pt) {vp : VirtPage} (hl : vp.level1 < 1023) :
    SameTables pt (archReadVirtDirtyAndAccessed pt vp).1 ∧
      Separate (archReadVirtDirtyAndAccessed pt vp).1 ∧
      ∀ l' < 1023, ∀ i', entryAt (archReadVirtDirtyAndAccessed pt vp).1 l' i' =
        if l' = vp.level1 ∧ i' = 0 then
          (entryAt pt l' i').map (· &&& ~~~(pageDirty ||| pageAccessed))
        else entryAt pt l' i' := by
  cases hp : tablePresent pt vp.level1 with
  | false =>
    have heq : (archReadVirtDirtyAndAccessed pt vp).1 = pt := by
      simp [archReadVirtDirtyAndAccessed, hp]
    rw [heq]
    refine ⟨⟨rfl, fun _ => rfl, fun _ => rfl⟩, h, fun l' _ i' => ?_⟩
    split
    · next hboth => simp [entryAt, hboth.1, hp]
    · rfl
  | true =>
    have heq : (archReadVirtDirtyAndAccessed pt vp).1 =
        pt.setWord (getRecursiveTable pt vp.level1) 0
          (pt.words (getRecursiveTable pt vp.level1) 0 &&& ~~~(pageDirty ||| pageAccessed)) := by
      simp [archReadVirtDirtyAndAccessed, hp]
    obtain ⟨hsame, hsep, hentry⟩ := h.setWord (i := 0) (e := pt.words
      (getRecursiveTable pt vp.level1) 0 &&& ~~~(pageDirty ||| pageAccessed)) hl hp
    rw [heq]
    refine ⟨hsame, hsep, fun l' hl' i' => ?_⟩
    rw [hentry l' hl' i']
    split
    · next hboth => simp [entryAt, hboth.1, hboth.2, hp]
    · rfl

end Tables

section Bits

variable {e : BitVec 32}

theorem hasFlag_clear_present (e : BitVec 32) :
    hasFlag (e &&& ~~~(pageDirty ||| pageAccessed)) pagePresent = hasFlag e pagePresent := by
  rw [hasFlag_present, hasFlag_present, BitVec.getLsbD_and, BitVec.getLsbD_not, getLsbD_marks]
  simp

theorem hasFlag_translate (vp : VirtPage) :
    hasFlag (translateToEntry vp) pagePresent = (vp.present && decide (vp.busy = 0)) := by
  have hmask : (~~~0xFFF#32).getLsbD 0 = false := by decide
  have hpresent : pagePresent.getLsbD 0 = true := by decide
  have hwrite : pageWrite.getLsbD 0 = false := by decide
  have huser : pageUser.getLsbD 0 = false := by decide
  have hglobal : pageGlobal.getLsbD 0 = false := by decide
  rw [hasFlag_present]
  unfold translateToEntry
  simp only [BitVec.getLsbD_or, BitVec.getLsbD_and, hmask, Bool.and_false, Bool.false_or, apply_ite
    (fun b : BitVec 32 => b.getLsbD 0), hpresent, hwrite, huser, hglobal, BitVec.getLsbD_zero,
    ite_self, Bool.or_false]
  cases vp.present <;> simp

/-- The processor marks an entry. -/
def markEntry (e : BitVec 32) (write : Bool) : BitVec 32 :=
  e ||| pageAccessed ||| (if write then pageDirty else 0#32)

theorem hasFlag_mark_dirty (e : BitVec 32) (write : Bool) :
    hasFlag (markEntry e write) pageDirty = (hasFlag e pageDirty || write) := by
  have hacc : pageAccessed.getLsbD 6 = false := by decide
  have hdirty : pageDirty.getLsbD 6 = true := by decide
  rw [hasFlag_dirty, hasFlag_dirty]
  unfold markEntry
  rw [BitVec.getLsbD_or, BitVec.getLsbD_or, hacc, Bool.or_false]
  cases write <;> simp [hdirty]

end Bits

/-! ## The system -/

variable {ι : Type} [DecidableEq ι]

/-- `written` says which pages were written since their last harvest. -/
structure HarvestState (ι : Type) where
  pt : PageTables
  page : ι → VirtPage
  /-- `dirty` and `lru` of each `struct phys_page` -/
  phys : Nat → Bool × BitVec 16
  written : ι → Bool

inductive HarvestOp (ι : Type) where
  | enterCriticalVirt (p : ι) (pp frame : Nat)
  | leaveCriticalVirt (p : ι) (frame : Nat)
  | discardVirt (p : ι) (origin : BitVec 32) (frame : Nat)
  /-- `HandlePageFault` makes the page present and `RegisterVasAsPhysUser` raises `busy`. -/
  | register (p : ι) (phys : BitVec 32)
  /-- The processor reads or writes through the page. -/
  | access (p : ι) (write : Bool)

/-- When each operation takes place; `busy` is 8 bits wide, and the kernel asserts the rest. -/
def HarvestOp.Enabled (st : HarvestState ι) : HarvestOp ι → Prop
  | .enterCriticalVirt p _ frame => (st.page p).busy + 1 < 256 ∧ UnusedFrame st.pt frame
  | .leaveCriticalVirt p frame => 0 < (st.page p).busy ∧ UnusedFrame st.pt frame
  | .discardVirt p _ frame => 0 < (st.page p).busy ∧ UnusedFrame st.pt frame
  | .register p _ => (st.page p).present = false ∧ (st.page p).busy + 1 < 256
  | .access p write => tablePresent st.pt (st.page p).level1 = true ∧
    hasFlag (ownEntry st.pt (st.page p)) pagePresent = true ∧
      (write = true → hasFlag (ownEntry st.pt (st.page p)) pageWrite = true)

def HarvestOp.apply (st : HarvestState ι) : HarvestOp ι → HarvestState ι
  | .enterCriticalVirt p pp frame =>
    let (pt, phys, vp) := Vmm.enterCriticalVirt st.pt (st.phys pp) (st.page p) frame
    { pt
      page := Function.update st.page p vp
      phys := Function.update st.phys pp phys
      written := Function.update st.written p (st.written p && (st.page p).busy ≠ 0) }
  | .leaveCriticalVirt p frame =>
    let (pt, vp) := Vmm.leaveCriticalVirt st.pt (st.page p) frame
    { st with pt, page := Function.update st.page p vp }
  | .discardVirt p origin frame =>
    let (pt, vp) := Vmm.discardVirt st.pt (st.page p) origin frame
    { st with pt, page := Function.update st.page p vp }
  | .register p phys =>
    { st with
      page := Function.update st.page p
        { st.page p with phys, present := true, busy := (st.page p).busy + 1 } }
  | .access p write =>
    { st with
      pt := st.pt.setWord (getRecursiveTable st.pt (st.page p).level1) (st.page p).level2
        (markEntry (ownEntry st.pt (st.page p)) write)
      written := Function.update st.written p (st.written p || write) }

/-- A harvest takes no other page's dirty bit. -/
def HarvestOp.KeepsDirty (st : HarvestState ι) : HarvestOp ι → Prop
  | .enterCriticalVirt p _ _ => tablePresent st.pt (st.page p).level1 = true →
    (st.page p).level2 = 0 ∨
      hasFlag (st.pt.words (getRecursiveTable st.pt (st.page p).level1) 0) pageDirty = false
  | _ => True

/-- A write through a page that was not harvested since is seen by the next harvest. -/
def WritesSeen (st : HarvestState ι) : Prop :=
  ∀ p pp frame, st.written p = true →
    (Vmm.enterCriticalVirt st.pt (st.phys pp) (st.page p) frame).2.1.1 = true ∧
      (Vmm.enterCriticalVirt st.pt (st.phys pp) (st.page p) frame).2.2.dirty = true

/-- The entry of a page that is not present, or is held, is not marked present. -/
def Unmapped (pt : PageTables) (vp : VirtPage) : Prop :=
  vp.present = false ∨ 0 < vp.busy →
    ∀ e, entryAt pt vp.level1 vp.level2 = some e → hasFlag e pagePresent = false

/-- Where a run begins: the tables agree with the pages. -/
structure HarvestStart (st : HarvestState ι) : Prop where
  separate : Separate st.pt
  level1 : ∀ p, (st.page p).level1 < 1023
  apart : ∀ p q, (st.page p).level1 = (st.page q).level1 →
    (st.page p).level2 = (st.page q).level2 → p = q
  unmapped : ∀ p, Unmapped st.pt (st.page p)
  written : ∀ p, st.written p = false

/-- A page that was written can be used, and its entry is dirty. -/
structure WrittenPage (pt : PageTables) (vp : VirtPage) : Prop where
  present : vp.present = true
  busy : vp.busy = 0
  dirty : ∃ e, entryAt pt vp.level1 vp.level2 = some e ∧ hasFlag e pageDirty = true

structure HarvestInv (st : HarvestState ι) : Prop where
  separate : Separate st.pt
  level1 : ∀ p, (st.page p).level1 < 1023
  apart : ∀ p q, (st.page p).level1 = (st.page q).level1 →
    (st.page p).level2 = (st.page q).level2 → p = q
  unmapped : ∀ p, Unmapped st.pt (st.page p)
  written : ∀ p, st.written p = true → WrittenPage st.pt (st.page p)

section Steps

variable {st st' : HarvestState ι} {p : ι} {pt' : PageTables} {frame : Nat}

/-- What a step at page `p` does to the entry of another page. -/
def EntryKept (pt pt' : PageTables) (vp : VirtPage) : Prop :=
  (∀ e', entryAt pt' vp.level1 vp.level2 = some e' → hasFlag e' pagePresent = true →
    ∃ e, entryAt pt vp.level1 vp.level2 = some e ∧ hasFlag e pagePresent = true) ∧
  ∀ e, entryAt pt vp.level1 vp.level2 = some e → hasFlag e pageDirty = true →
    ∃ e', entryAt pt' vp.level1 vp.level2 = some e' ∧ hasFlag e' pageDirty = true

theorem EntryKept.refl (pt : PageTables) (vp : VirtPage) : EntryKept pt pt vp :=
  ⟨fun e he hp => ⟨e, he, hp⟩, fun e he hd => ⟨e, he, hd⟩⟩

theorem EntryKept.trans {pt pt'' : PageTables} {vp : VirtPage} (h : EntryKept pt pt' vp)
    (h' : EntryKept pt' pt'' vp) : EntryKept pt pt'' vp := by
  refine ⟨fun e'' he hp => ?_, fun e he hd => ?_⟩
  · obtain ⟨e', he', hp'⟩ := h'.1 e'' he hp
    exact h.1 e' he' hp'
  · obtain ⟨e', he', hd'⟩ := h.2 e he hd
    exact h'.2 e' he' hd'

theorem level2_lt (vp : VirtPage) : vp.level2 < 1024 := Nat.mod_lt _ (by omega)

/-- `SynchroniseVirt` of one page does not touch the entry of another. -/
theorem entryKept_synchroniseVirt {pt : PageTables} {vp vq : VirtPage} (h : Separate pt)
    (hl : vp.level1 < 1023) (hlq : vq.level1 < 1023) (hf : UnusedFrame pt frame)
    (hne : ¬ (vq.level1 = vp.level1 ∧ vq.level2 = vp.level2)) :
    EntryKept pt (synchroniseVirt pt vp frame) vq := by
  have hentry := (h.setPte (e := translateToEntry vp) hl hf).2 vq.level1 hlq vq.level2
    (level2_lt vq)
  change entryAt (synchroniseVirt pt vp frame) vq.level1 vq.level2 =
    if vq.level1 = vp.level1 ∧ vq.level2 = vp.level2 then _ else _ at hentry
  rw [if_neg hne] at hentry
  refine ⟨fun e' he' hp => ?_, fun e he hd => ?_⟩
  · rw [hentry] at he'
    split at he'
    · cases hold : entryAt pt vq.level1 vq.level2 with
      | none =>
        -- an entry of a table that was mapped just now
        rw [hold] at he'
        cases he'
        cases hp
      | some e =>
        rw [hold] at he'
        cases he'
        exact ⟨e, rfl, hp⟩
    · exact ⟨e', he', hp⟩
  · rw [hentry, he]
    exact ⟨e, by split <;> rfl, hd⟩

/-- A harvest that clears no dirty bit in the first entry keeps the other pages. -/
theorem entryKept_archRead {pt : PageTables} {vp vq : VirtPage} (h : Separate pt)
    (hl : vp.level1 < 1023) (hlq : vq.level1 < 1023)
    (hne : ¬ (vq.level1 = vp.level1 ∧ vq.level2 = vp.level2))
    (hfirst : tablePresent pt vp.level1 = true → vp.level2 = 0 ∨
      hasFlag (pt.words (getRecursiveTable pt vp.level1) 0) pageDirty = false) :
    EntryKept pt (archReadVirtDirtyAndAccessed pt vp).1 vq := by
  have hentry := (h.archRead hl).2.2 vq.level1 hlq vq.level2
  refine ⟨fun e' he' hp => ?_, fun e he hd => ?_⟩
  · rw [hentry] at he'
    split at he'
    · obtain ⟨e, he, rfl⟩ := Option.map_eq_some_iff.mp he'
      rw [hasFlag_clear_present] at hp
      exact ⟨e, he, hp⟩
    · exact ⟨e', he', hp⟩
  · rw [hentry]
    split
    · next hboth =>
      unfold entryAt at he
      rw [hboth.1, hboth.2] at he
      split at he
      · next hpresent =>
        cases he
        rcases hfirst hpresent with hzero | hclean
        · exact absurd ⟨hboth.1, hboth.2.trans hzero.symm⟩ hne
        · rw [hclean] at hd
          cases hd
      · cases he
    · exact ⟨e, he, hd⟩

/-- After `SynchroniseVirt` the page can be used only if it is present and not held. -/
theorem unmapped_synchroniseVirt {pt : PageTables} {vp : VirtPage} (h : Separate pt)
    (hl : vp.level1 < 1023) (hf : UnusedFrame pt frame) :
    Unmapped (synchroniseVirt pt vp frame) vp := by
  intro hgone e he
  have hentry := (h.setPte (e := translateToEntry vp) hl hf).2 vp.level1 hl vp.level2
    (level2_lt vp)
  change entryAt (synchroniseVirt pt vp frame) vp.level1 vp.level2 =
    if vp.level1 = vp.level1 ∧ vp.level2 = vp.level2 then _ else _ at hentry
  rw [if_pos ⟨rfl, rfl⟩, he] at hentry
  cases hentry
  rw [hasFlag_translate]
  rcases hgone with hpresent | hbusy
  · rw [hpresent]
    rfl
  · rw [decide_eq_false (by omega), Bool.and_false]

theorem separate_synchroniseVirt {pt : PageTables} {vp : VirtPage} (h : Separate pt)
    (hl : vp.level1 < 1023) (hf : UnusedFrame pt frame) : Separate (synchroniseVirt pt vp frame) :=
  (h.setPte hl hf).1

/-- A step at page `p`: what is left to show of it is about `p`, if the others are kept. -/
theorem HarvestInv.update (h : HarvestInv st) (vp' : VirtPage)
    (hpage : st'.page = Function.update st.page p vp') (hvirt : vp'.virt = (st.page p).virt) (hsep : Separate st'.pt)
    (hwritten : ∀ q ≠ p, st'.written q = st.written q)
    (hkept : ∀ q ≠ p, EntryKept st.pt st'.pt (st.page q))
    (hunmapped : Unmapped st'.pt vp')
    (hown : st'.written p = true → WrittenPage st'.pt vp') : HarvestInv st' := by
  have hself : st'.page p = vp' := by rw [hpage, Function.update_self]
  have hother : ∀ q ≠ p, st'.page q = st.page q := fun q hq => by
    rw [hpage, Function.update_of_ne hq]
  have hlevel1 : ∀ q, (st'.page q).level1 = (st.page q).level1 := by
    intro q
    by_cases hq : q = p
    · rw [hq, hself]
      unfold VirtPage.level1
      rw [hvirt]
    · rw [hother q hq]
  have hlevel2 : ∀ q, (st'.page q).level2 = (st.page q).level2 := by
    intro q
    by_cases hq : q = p
    · rw [hq, hself]
      unfold VirtPage.level2
      rw [hvirt]
    · rw [hother q hq]
  refine ⟨hsep, fun q => ?_, fun q r h1 h2 => ?_, fun q => ?_, fun q hw => ?_⟩
  · rw [hlevel1]
    exact h.level1 q
  · rw [hlevel1, hlevel1] at h1
    rw [hlevel2, hlevel2] at h2
    exact h.apart q r h1 h2
  · by_cases hq : q = p
    · rw [hq, hself]
      exact hunmapped
    · rw [hother q hq]
      intro hbusy e' he'
      by_contra hpresent
      obtain ⟨e, he, hep⟩ := (hkept q hq).1 e' he' (by simpa using hpresent)
      rw [h.unmapped q hbusy e he] at hep
      cases hep
  · by_cases hq : q = p
    · subst hq
      rw [hself]
      exact hown hw
    · rw [hwritten q hq] at hw
      obtain ⟨hp, hb, e, he, hd⟩ := h.written q hw
      rw [hother q hq]
      exact ⟨hp, hb, (hkept q hq).2 e he hd⟩

omit [DecidableEq ι] in
theorem HarvestInv.apart_of_ne (h : HarvestInv st) {q : ι} (hq : q ≠ p) :
    ¬ ((st.page q).level1 = (st.page p).level1 ∧ (st.page q).level2 = (st.page p).level2) :=
  fun hboth => hq (h.apart q p hboth.1 hboth.2)

theorem archRead_virt (pt : PageTables) (vp : VirtPage) :
    (archReadVirtDirtyAndAccessed pt vp).2.virt = vp.virt := by
  unfold archReadVirtDirtyAndAccessed
  split <;> rfl

theorem HarvestInv.enterCriticalVirt (h : HarvestInv st) {pp : Nat}
    (hf : UnusedFrame st.pt frame)
    (hfirst : (HarvestOp.enterCriticalVirt p pp frame).KeepsDirty st) :
    HarvestInv ((HarvestOp.enterCriticalVirt p pp frame).apply st) := by
  by_cases hbusy : (st.page p).busy = 0
  · -- the harvest, with `busy` raised already
    set held := { st.page p with busy := (st.page p).busy + 1 } with hheld
    have hl : held.level1 < 1023 := h.level1 p
    obtain ⟨hsame, hsep, -⟩ := h.separate.archRead hl
    have hf' := hf.sameTables hsame
    set vp := { (archReadVirtDirtyAndAccessed st.pt held).2 with accessed := false } with hvp
    have hvirt : vp.virt = (st.page p).virt := archRead_virt st.pt held
    have hlvp : vp.level1 < 1023 := by
      unfold VirtPage.level1
      rw [hvirt]
      exact h.level1 p
    have heq : (HarvestOp.enterCriticalVirt p pp frame).apply st =
        { pt := synchroniseVirt (archReadVirtDirtyAndAccessed st.pt held).1 vp frame
          page := Function.update st.page p vp
          phys := Function.update st.phys pp
            (Vmm.enterCriticalVirt st.pt (st.phys pp) (st.page p) frame).2.1
          written := Function.update st.written p
            (st.written p && (st.page p).busy ≠ 0) } := by
      simp only [HarvestOp.apply, Vmm.enterCriticalVirt, hbusy, if_true, hvp, hheld]
    rw [heq]
    refine h.update _ rfl hvirt (separate_synchroniseVirt hsep hlvp hf')
      (fun q hq => Function.update_of_ne hq _ _) (fun q hq => ?_)
      (unmapped_synchroniseVirt hsep hlvp hf') (fun hw => ?_)
    · have hne := h.apart_of_ne hq
      have hne' : ¬ ((st.page q).level1 = vp.level1 ∧ (st.page q).level2 = vp.level2) := by
        unfold VirtPage.level1 VirtPage.level2 at hne ⊢
        rw [hvirt]
        exact hne
      exact (entryKept_archRead h.separate hl (h.level1 q) hne hfirst).trans
        (entryKept_synchroniseVirt hsep hlvp (h.level1 q) hf' hne')
    · simp only [Function.update_self, hbusy] at hw
      simp at hw
  · have heq : (HarvestOp.enterCriticalVirt p pp frame).apply st =
        { st with
          page := Function.update st.page p { st.page p with busy := (st.page p).busy + 1 }
          phys := Function.update st.phys pp (st.phys pp)
          written := Function.update st.written p
            (st.written p && (st.page p).busy ≠ 0) } := by
      simp only [HarvestOp.apply, Vmm.enterCriticalVirt, hbusy, if_false]
    rw [heq]
    refine h.update _ rfl rfl h.separate (fun q hq => Function.update_of_ne hq _ _)
      (fun q _ => .refl _ _) (fun _ => h.unmapped p (Or.inr (by omega))) (fun hw => ?_)
    simp only [Function.update_self, Bool.and_eq_true] at hw
    exact absurd (h.written p hw.1).busy hbusy

theorem HarvestInv.leaveCriticalVirt (h : HarvestInv st) (hf : UnusedFrame st.pt frame)
    (hbusy : 0 < (st.page p).busy) :
    HarvestInv ((HarvestOp.leaveCriticalVirt p frame).apply st) := by
  have hnot : st.written p ≠ true := fun hw => by
    have := (h.written p hw).busy
    omega
  set vp := { st.page p with busy := (st.page p).busy - 1 } with hvp
  by_cases hlast : (st.page p).busy - 1 = 0
  · have heq : (HarvestOp.leaveCriticalVirt p frame).apply st =
        { st with
          pt := synchroniseVirt st.pt vp frame
          page := Function.update st.page p vp } := by
      simp only [HarvestOp.apply, Vmm.leaveCriticalVirt, hlast, if_true, hvp]
    rw [heq]
    exact h.update _ rfl rfl (separate_synchroniseVirt h.separate (h.level1 p) hf)
      (fun q _ => rfl)
      (fun q hq => entryKept_synchroniseVirt h.separate (h.level1 p) (h.level1 q) hf
        (h.apart_of_ne hq))
      (unmapped_synchroniseVirt h.separate (h.level1 p) hf) (fun hw => absurd hw hnot)
  · have heq : (HarvestOp.leaveCriticalVirt p frame).apply st =
        { st with page := Function.update st.page p vp } := by
      simp only [HarvestOp.apply, Vmm.leaveCriticalVirt, hlast, if_false, hvp]
    rw [heq]
    exact h.update _ rfl rfl h.separate (fun q _ => rfl) (fun q _ => .refl _ _)
      (fun _ => h.unmapped p (Or.inr hbusy)) (fun hw => absurd hw hnot)

theorem HarvestInv.discardVirt (h : HarvestInv st) {origin : BitVec 32}
    (hf : UnusedFrame st.pt frame) (hbusy : 0 < (st.page p).busy) :
    HarvestInv ((HarvestOp.discardVirt p origin frame).apply st) := by
  have hnot : st.written p ≠ true := fun hw => by
    have := (h.written p hw).busy
    omega
  exact h.update _ rfl rfl (separate_synchroniseVirt h.separate (h.level1 p) hf) (fun q _ => rfl)
    (fun q hq => entryKept_synchroniseVirt h.separate (h.level1 p) (h.level1 q) hf
      (h.apart_of_ne hq))
    (unmapped_synchroniseVirt h.separate (h.level1 p) hf) (fun hw => absurd hw hnot)

theorem HarvestInv.register (h : HarvestInv st) {phys : BitVec 32}
    (hpresent : (st.page p).present = false) :
    HarvestInv ((HarvestOp.register p phys).apply st) := by
  refine h.update _ rfl rfl h.separate (fun q _ => rfl) (fun q _ => .refl _ _)
    (fun _ => h.unmapped p (Or.inl hpresent)) (fun hw => ?_)
  have := (h.written p hw).present
  rw [hpresent] at this
  cases this

omit [DecidableEq ι] in
/-- The processor can use a page only when it is present and not held. -/
theorem HarvestInv.usable (h : HarvestInv st) {e : BitVec 32}
    (he : entryAt st.pt (st.page p).level1 (st.page p).level2 = some e)
    (hp : hasFlag e pagePresent = true) :
    (st.page p).present = true ∧ (st.page p).busy = 0 := by
  by_contra hnot
  have hgone : (st.page p).present = false ∨ 0 < (st.page p).busy := by
    by_contra hnone
    push Not at hnone
    exact hnot ⟨by simpa using hnone.1, by omega⟩
  rw [h.unmapped p hgone e he] at hp
  cases hp

theorem HarvestInv.access (h : HarvestInv st) {write : Bool}
    (hop : (HarvestOp.access p write).Enabled st) :
    HarvestInv ((HarvestOp.access p write).apply st) := by
  obtain ⟨htable, hpresent, -⟩ := hop
  have hown : entryAt st.pt (st.page p).level1 (st.page p).level2 =
      some (ownEntry st.pt (st.page p)) := if_pos htable
  obtain ⟨-, hsep, hentry⟩ := h.separate.setWord (i := (st.page p).level2)
    (e := markEntry (ownEntry st.pt (st.page p)) write) (h.level1 p) htable
  obtain ⟨hres, hbusy⟩ := h.usable hown hpresent
  refine h.update (st.page p) (Function.update_eq_self p st.page).symm rfl hsep
    (fun q hq => Function.update_of_ne hq _ _) (fun q hq => ?_) (fun hgone => ?_) (fun hw => ?_)
  · have hsame : entryAt (st.pt.setWord (getRecursiveTable st.pt (st.page p).level1)
        (st.page p).level2 (markEntry (ownEntry st.pt (st.page p)) write)) (st.page q).level1
        (st.page q).level2 = entryAt st.pt (st.page q).level1 (st.page q).level2 := by
      rw [hentry _ (h.level1 q), if_neg (h.apart_of_ne hq)]
    exact ⟨fun e' he' hp => ⟨e', hsame ▸ he', hp⟩, fun e he hd => ⟨e, hsame.trans he, hd⟩⟩
  · rw [hres, hbusy] at hgone
    simp at hgone
  · refine ⟨hres, hbusy, markEntry (ownEntry st.pt (st.page p)) write, ?_, ?_⟩
    · exact (hentry _ (h.level1 p) _).trans (if_pos ⟨rfl, rfl⟩)
    · have hw' : (st.written p || write) = true := by
        rw [← hw]
        exact (Function.update_self p _ st.written).symm
      rw [hasFlag_mark_dirty]
      cases write with
      | true => rw [Bool.or_true]
      | false =>
        obtain ⟨e, he, hd⟩ := (h.written p (by simpa using hw')).dirty
        rw [hown] at he
        cases he
        rw [hd, Bool.true_or]

theorem HarvestInv.apply (h : HarvestInv st) {op : HarvestOp ι} (hop : op.Enabled st)
    (hkeeps : op.KeepsDirty st) : HarvestInv (op.apply st) := by
  cases op with
  | enterCriticalVirt p pp frame => exact h.enterCriticalVirt hop.2 hkeeps
  | leaveCriticalVirt p frame => exact h.leaveCriticalVirt hop.2 hop.1
  | discardVirt p origin frame => exact h.discardVirt hop.2 hop.1
  | register p phys => exact h.register hop.1
  | access p write => exact h.access hop

omit [DecidableEq ι] in
theorem HarvestInv.writesSeen (h : HarvestInv st) : WritesSeen st := by
  intro p pp frame hw
  obtain ⟨-, hbusy, e, he, hd⟩ := h.written p hw
  unfold entryAt at he
  split at he
  · next htable =>
    cases he
    set held := { st.page p with busy := (st.page p).busy + 1 } with hheld
    have hdirty : (archReadVirtDirtyAndAccessed st.pt held).2.dirty = true := by
      have hread : archReadVirtDirtyAndAccessed st.pt held = (_, { held with
          dirty := hasFlag (ownEntry st.pt held) pageDirty
          accessed := hasFlag (ownEntry st.pt held) pageAccessed }) := if_pos htable
      rw [hread]
      exact hd
    unfold Vmm.enterCriticalVirt
    simp only [hbusy, if_true]
    rw [hbusy] at hheld
    rw [← hheld, hdirty, Bool.or_true]
    exact ⟨rfl, rfl⟩
  · cases he

end Steps

/-! ## Runs -/

/-- A step of the kernel or the processor. -/
def HarvestStep (st st' : HarvestState ι) : Prop :=
  ∃ op : HarvestOp ι, op.Enabled st ∧ st' = op.apply st

/-- A step that clears no dirty bit of another page. -/
def KeepingStep (st st' : HarvestState ι) : Prop :=
  ∃ op : HarvestOp ι, op.Enabled st ∧ op.KeepsDirty st ∧ st' = op.apply st

/--
**When a harvest loses nothing.** A harvest reads and clears its own entry and no other exactly
when the page is the first of its table or neither entry is marked; and in a run whose harvests
find the first entry clean, or are of the first page, each write is seen by a later harvest.
-/
theorem harvest_keeps_other_pages (s st : HarvestState ι) (hstart : HarvestStart s)
    (hrun : Reaches KeepingStep s st) :
    (∀ pt vp, HarvestsOwn pt vp ↔ (tablePresent pt vp.level1 = true → vp.level2 = 0 ∨
      Unmarked (ownEntry pt vp) ∧ Unmarked (pt.words (getRecursiveTable pt vp.level1) 0))) ∧
    WritesSeen st := by
  have hbegin : HarvestInv s := by
    refine ⟨hstart.separate, hstart.level1, hstart.apart, hstart.unmapped, fun p hw => ?_⟩
    rw [hstart.written p] at hw
    cases hw
  have hinv : HarvestInv st := hrun.invariant hbegin fun a b ha hstep => by
    obtain ⟨op, hop, hkeeps, rfl⟩ := hstep
    exact ha.apply hop hkeeps
  exact ⟨harvestsOwn_iff, hinv.writesSeen⟩

/-! ### Two pages of one table -/

/-- A directory in frame 1 and the table of 4 MiB to 8 MiB in frame 2, with two pages. -/
def twoPageTables : PageTables where
  cr3 := 1
  words f i :=
    if f = 1 then if i = 1023 then 0x1003#32 else if i = 1 then 0x2003#32 else 0#32
    else if f = 2 then if i = 0 then 0x5003#32 else if i = 1 then 0x6003#32 else 0#32
    else 0#32

/-- The two pages, of which `false` is the first of the table. -/
def twoPages : HarvestState Bool where
  pt := twoPageTables
  page p :=
    { virt := if p then 0x401000 else 0x400000, phys := if p then 0x6000#32 else 0x5000#32
      present := true, write := true, user := false, accessed := false, dirty := false, busy := 0 }
  phys _ := (false, 0#16)
  written _ := false

theorem twoPageTables_present {l : Nat} (hl : l < 1023)
    (hp : tablePresent twoPageTables l = true) : l = 1 := by
  rw [tablePresent_eq (by decide)] at hp
  by_contra hne
  have hzero : twoPageTables.words twoPageTables.cr3 l = 0#32 := by
    show (if l = 1023 then _ else if l = 1 then _ else _) = _
    rw [if_neg (by omega), if_neg hne]
  rw [hzero] at hp
  cases hp

theorem twoPages_start : HarvestStart twoPages := by
  refine ⟨⟨by decide, fun l hl hp => ?_, fun l hl l' hl' hp hp' _ => ?_⟩, by decide, by decide,
    fun p hgone => ?_, fun _ => rfl⟩
  · rw [twoPageTables_present hl hp]
    decide
  · rw [twoPageTables_present hl hp, twoPageTables_present hl' hp']
  · rcases hgone with h | h
    · cases h
    · exact absurd h (Nat.lt_irrefl 0)

theorem twoPages_unused : UnusedFrame twoPageTables 9 := by
  refine ⟨by decide, by decide, fun l hl hp => ?_⟩
  rw [twoPageTables_present hl hp]
  decide

/-- The second page is written, while the first is not. -/
theorem harvest_keeps_other_pages_second :
    ((∀ pt vp, HarvestsOwn pt vp ↔ (tablePresent pt vp.level1 = true → vp.level2 = 0 ∨
      Unmarked (ownEntry pt vp) ∧ Unmarked (pt.words (getRecursiveTable pt vp.level1) 0))) ∧
    WritesSeen ((HarvestOp.access true true).apply twoPages)) :=
  harvest_keeps_other_pages twoPages _ twoPages_start
    (Relation.ReflTransGen.single ⟨.access true true, ⟨by decide, by decide, by decide⟩, trivial, rfl⟩)

/-- The first page is written and the second harvested: the write is not seen. -/
theorem harvest_loses_first_page :
    HarvestStart twoPages ∧ (∃ st, Reaches HarvestStep twoPages st ∧ ¬ WritesSeen st) ∧
      ∃ pt vp, ¬ HarvestsOwn pt vp := by
  have hunused : UnusedFrame ((HarvestOp.access false true).apply twoPages).pt 9 :=
    twoPages_unused.sameTables
      (twoPages_start.separate.setWord (twoPages_start.level1 false) (by decide)).1
  refine ⟨twoPages_start, ⟨_,
    (Relation.ReflTransGen.refl.tail ⟨.access false true, ⟨by decide, by decide, by decide⟩, rfl⟩).tail
      ⟨.enterCriticalVirt true 0 9, ⟨by decide, hunused⟩, rfl⟩, fun hseen => ?_⟩,
    ((HarvestOp.access false true).apply twoPages).pt, twoPages.page true, fun h => ?_⟩
  · have hread := (hseen false 1 0 (by decide)).2
    revert hread
    decide
  · have hkept := h.kept 2 0 (Or.inr (Or.inr (by decide)))
    revert hkept
    decide

end Nolrem.Vmm
