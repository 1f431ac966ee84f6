import Mathlib.Data.List.Pairwise
import Nolrem.Phys.Table

/-!
# The counter of free pages

`sys_free_pp` through `InitPhys`, `AllocPhys` and the two callers of `FreeDiscardedPhys`. The
number it should be is a count over the table, and each operation changes one entry of it.
-/

namespace Nolrem.Phys

open Nolrem.Lib

/-! ## The code -/

/-- `IsMemoryRunningLow` -/
def isMemoryRunningLow (st : PhysState) : Bool := st.freePp ≤ 16 * 2

/-- `IsMemoryLow` -/
def isMemoryLow (st : PhysState) : Bool := st.freePp ≤ 16

/-- `IsOutOfMemory` -/
def isOutOfMemory (st : PhysState) : Bool := st.freePp ≤ 12

def PhysState.setPage (st : PhysState) (i : Nat) (pp : PhysPage) : PhysState :=
  { st with table := Function.update st.table i pp }

/-- `HandlePageFault` gives a frame its origin. -/
def publishFrame (st : PhysState) (i origin : Nat) : PhysState :=
  st.setPage i { st.table i with origin, dirty := false, wired := 0, lru := 0xFFFF }

/-- `RegisterVasAsPhysUser`; `link` is the chain with the new user at its head. -/
def registerVasAsPhysUser (st : PhysState) (i vas vp link : Nat) : PhysState :=
  if (st.table i).vas = 0 then st.setPage i { st.table i with vas, vp }
  else st.setPage i { st.table i with chain := link }

/-- What `MarkKernelPageDiscardable` does to the page. -/
def markKernelPageDiscardable (st : PhysState) (i origin vas vp : Nat) : PhysState :=
  st.setPage i { st.table i with vp, vas, chain := 0, origin }

/-- The end of `DiscardPage`, and of `ReleaseVirtPage` for the last user of a page. -/
def dropUsersAndFree (st : PhysState) (i : Nat) : PhysState :=
  freeDiscardedPhys (st.setPage i { st.table i with vas := 0, vp := 0 }) i

/-- What happens to the table of pages after `InitPhys`. -/
inductive PhysOp where
  | allocPhys (pin : Bool)
  | publishFrame (i origin : Nat)
  | registerVasAsPhysUser (i vas vp link : Nat)
  | markKernelPageDiscardable (i origin vas vp : Nat)
  | discardPage (i : Nat)
  | releaseVirtPage (i : Nat)
deriving DecidableEq, Repr

/-- When each operation takes place; `kernelEnd` is the physical address of `_kernel_end`. -/
def PhysOp.Enabled (kernelEnd : Nat) (st : PhysState) : PhysOp → Prop
  | .allocPhys _ => True
  -- `AllocPhys` has returned the frame
  | .publishFrame i origin =>
    (st.table i).exist = true ∧ (st.table i).allocated = true ∧ (st.table i).origin = 0 ∧ origin ≠ 0
  | .registerVasAsPhysUser i vas _ _ => (st.table i).origin ≠ 0 ∧ vas ≠ 0
  | .markKernelPageDiscardable i origin _ _ =>
    0x10000 ≤ i * 4096 ∧ i * 4096 < maxKernelAddr kernelEnd ∧ origin ≠ 0
  -- the last check of `FindDiscardPage`, whose walk has come to the page
  | .discardPage i =>
    i ≤ st.maxIndex ∧ (st.table i).wired = 0 ∧ (st.table i).dirty = false ∧
      (st.table i).origin ≠ 0 ∧ ((st.table i).vas ≠ 0 ∨ (st.table i).chain ≠ 0)
  | .releaseVirtPage i => (st.table i).origin ≠ 0 ∧ (st.table i).wired = 0

instance (kernelEnd : Nat) (st : PhysState) :
    (op : PhysOp) → Decidable (op.Enabled kernelEnd st)
  | .allocPhys _ => inferInstanceAs (Decidable True)
  | .publishFrame _ _ => inferInstanceAs (Decidable (_ ∧ _ ∧ _ ∧ _))
  | .registerVasAsPhysUser _ _ _ _ => inferInstanceAs (Decidable (_ ∧ _))
  | .markKernelPageDiscardable _ _ _ _ => inferInstanceAs (Decidable (_ ∧ _ ∧ _))
  | .discardPage _ => inferInstanceAs (Decidable (_ ∧ _ ∧ _ ∧ _ ∧ _))
  | .releaseVirtPage _ => inferInstanceAs (Decidable (_ ∧ _))

/-- The state after an operation. -/
def PhysOp.apply (st : PhysState) : PhysOp → PhysState
  | .allocPhys pin => (Phys.allocPhys st pin).1
  | .publishFrame i origin => Phys.publishFrame st i origin
  | .registerVasAsPhysUser i vas vp link => Phys.registerVasAsPhysUser st i vas vp link
  | .markKernelPageDiscardable i origin vas vp =>
    Phys.markKernelPageDiscardable st i origin vas vp
  | .discardPage i | .releaseVirtPage i => dropUsersAndFree st i

/-- Only an entry of the table that has `exists` and `allocated` set goes to `FreeDiscardedPhys`. -/
def PhysOp.FreesAllocated (st : PhysState) : PhysOp → Prop
  | .discardPage i | .releaseVirtPage i =>
    i ≤ st.maxIndex ∧ (st.table i).exist = true ∧ (st.table i).allocated = true
  | _ => True

instance (st : PhysState) : (op : PhysOp) → Decidable (op.FreesAllocated st)
  | .discardPage _ | .releaseVirtPage _ => inferInstanceAs (Decidable (_ ∧ _ ∧ _))
  | .allocPhys _ | .publishFrame _ _ | .registerVasAsPhysUser _ _ _ _
  | .markKernelPageDiscardable _ _ _ _ => inferInstanceAs (Decidable True)

/-! ## What the counter should be -/

/-- A page that `AllocPhys` may return. -/
def PhysPage.isFree (pp : PhysPage) : Bool := pp.exist && !pp.allocated

theorem PhysPage.isFree_iff {pp : PhysPage} :
    pp.isFree = true ↔ pp.exist = true ∧ pp.allocated = false := by
  simp [PhysPage.isFree]

/-- The number of entries with `exists` set and `allocated` clear. -/
def PhysState.freePages (st : PhysState) : Nat :=
  Nat.count (fun i => (st.table i).isFree = true) (st.maxIndex + 1)

/-- The counter is the number of free pages, and what is read off it is true of them. -/
structure CounterExact (st : PhysState) : Prop where
  counter : st.freePp = st.freePages
  fails : ∀ pin, (allocPhys st pin).2 = 0 ↔ st.freePp = 0
  runningLow : isMemoryRunningLow st = true ↔ st.freePages ≤ 32
  low : isMemoryLow st = true ↔ st.freePages ≤ 16
  out : isOutOfMemory st = true ↔ st.freePages ≤ 12

/-- The invariant of a run: nobody holds a page's lock between two operations. -/
structure CountInv (st : PhysState) : Prop where
  counter : st.freePp = st.freePages
  first : (st.table 0).exist = false
  unlocked : ∀ i ≤ st.maxIndex, (st.table i).exist = true → (st.table i).lock = false
  small : st.maxIndex < 1048576

section Ops

variable {st : PhysState}

/-! ## The allocator -/

theorem allocScan_some {fuel i k : Nat} (h : allocScan st fuel i = some k) (hi : i ≤ st.maxIndex) :
    k ≤ st.maxIndex ∧ (st.table k).isFree = true := by
  induction fuel generalizing i with
  | zero => cases h
  | succ fuel ih =>
    unfold allocScan at h
    split at h
    · next hfree =>
      cases h
      exact ⟨hi, PhysPage.isFree_iff.mpr hfree.2⟩
    · unfold getNextPhysPage at h
      split at h
      · cases h
      · next j hj =>
        split at hj
        · cases hj
        · cases hj
          exact ih h (by omega)

/-- A scan that finds nothing has seen every entry from where it began. -/
theorem allocScan_none {fuel i : Nat} (h : allocScan st fuel i = none)
    (hfuel : st.maxIndex < i + fuel) {k : Nat} (hik : i ≤ k) (hk : k ≤ st.maxIndex) :
    (st.table k).lock = false → (st.table k).isFree = false := by
  induction fuel generalizing i with
  | zero => omega
  | succ fuel ih =>
    unfold allocScan at h
    split at h
    · cases h
    · next hbusy =>
      by_cases hki : k = i
      · subst hki
        intro hlock
        by_contra hfree
        exact hbusy ⟨hlock, PhysPage.isFree_iff.mp (by simpa using hfree)⟩
      · unfold getNextPhysPage at h
        split at h
        · next hend =>
          split at hend
          · omega
          · cases hend
        · next j hj =>
          split at hj
          · cases hj
          · cases hj
            exact ih h (by omega) (by omega)

/-- The count after a change to one entry. -/
theorem count_update {t : Nat → PhysPage} {n i : Nat} {e : PhysPage} (hi : i < n)
    (hold : (t i).isFree = false) (hnew : e.isFree = true) :
    Nat.count (fun j => (Function.update t i e j).isFree = true) n =
      Nat.count (fun j => (t j).isFree = true) n + 1 := by
  refine count_insert hi (by rw [hold]; simp) fun j => ?_
  rw [Function.update_apply]
  split
  · next hj => simp [hj, hnew]
  · next hj => simp [hj]

theorem CountInv.allocPhys_zero (h : CountInv st) (pin : Bool) :
    (allocPhys st pin).2 = 0 ↔ st.freePp = 0 := by
  rw [h.counter]
  unfold allocPhys
  split
  · next hscan =>
    refine iff_of_true rfl (Nat.eq_zero_of_not_pos fun hpos => ?_)
    obtain ⟨i, hi, hfree⟩ := count_pos_iff.mp hpos
    have hlock := h.unlocked i (by omega) (PhysPage.isFree_iff.mp hfree).1
    rw [allocScan_none hscan (by omega) (by omega) (by omega) hlock] at hfree
    cases hfree
  · next i hscan =>
    obtain ⟨hi, hfree⟩ := allocScan_some hscan (by omega)
    have hsmall := h.small
    have hpos : 0 < st.freePages := count_pos_iff.mpr ⟨i, by omega, hfree⟩
    have hi0 : i ≠ 0 := by
      rintro rfl
      have := (PhysPage.isFree_iff.mp hfree).1
      rw [h.first] at this
      cases this
    have haddr : wmul i 4096 = i * 4096 := wmul_eq (by omega)
    exact iff_of_false (by rw [haddr]; omega) (by omega)

theorem CountInv.exact (h : CountInv st) : CounterExact st where
  counter := h.counter
  fails := h.allocPhys_zero
  runningLow := by rw [← h.counter, isMemoryRunningLow, decide_eq_true_iff]
  low := by rw [← h.counter, isMemoryLow, decide_eq_true_iff]
  out := by rw [← h.counter, isOutOfMemory, decide_eq_true_iff]

theorem freePages_le (st : PhysState) : st.freePages ≤ st.maxIndex + 1 := Nat.count_le _

/-! ## Each operation -/

theorem CountInv.allocPhys (h : CountInv st) (pin : Bool) :
    CountInv (Phys.allocPhys st pin).1 := by
  unfold Phys.allocPhys
  split
  · exact h
  · next i hscan =>
    obtain ⟨hi, hfree⟩ := allocScan_some hscan (by omega)
    have hle := freePages_le st
    have hsmall := h.small
    refine ⟨?_, ?_, ?_, h.small⟩
    · -- the old table is the new one with entry `i` free
      have hcount := count_update (t := Function.update st.table i
          { st.table i with allocated := true, wired := if pin then 1 else 0 })
        (i := i) (e := st.table i) (n := st.maxIndex + 1) (by omega)
        (by simp [PhysPage.isFree]) hfree
      rw [Function.update_idem, Function.update_eq_self] at hcount
      have hold := h.counter
      unfold PhysState.freePages at hold hle ⊢
      rw [hold, wsub_eq (by omega) (by omega)]
      exact Nat.sub_eq_of_eq_add hcount
    · show (Function.update st.table i _ 0).exist = false
      rw [Function.update_apply]
      split
      · next h0 =>
        rw [← h0]
        exact h.first
      · exact h.first
    · intro j hj
      show (Function.update st.table i _ j).exist = true →
        (Function.update st.table i _ j).lock = false
      rw [Function.update_apply]
      split
      · exact h.unlocked i hi
      · exact h.unlocked j hj

/-- A change to the other fields of an entry. -/
theorem CountInv.setPage (h : CountInv st) {i : Nat} {e : PhysPage}
    (hexist : e.exist = (st.table i).exist) (halloc : e.allocated = (st.table i).allocated)
    (hlock : e.lock = (st.table i).lock) : CountInv (st.setPage i e) := by
  have hsame : ∀ j, ((st.setPage i e).table j).exist = (st.table j).exist ∧
      ((st.setPage i e).table j).allocated = (st.table j).allocated ∧
      ((st.setPage i e).table j).lock = (st.table j).lock := by
    intro j
    unfold PhysState.setPage
    simp only [Function.update_apply]
    split
    · next hj =>
      rw [hj]
      exact ⟨hexist, halloc, hlock⟩
    · exact ⟨rfl, rfl, rfl⟩
  refine ⟨?_, ?_, ?_, h.small⟩
  · refine h.counter.trans (count_congr fun j _ => ?_)
    unfold PhysPage.isFree
    rw [(hsame j).1, (hsame j).2.1]
  · rw [(hsame 0).1]
    exact h.first
  · intro j hj
    rw [(hsame j).1, (hsame j).2.2]
    exact h.unlocked j hj

theorem CountInv.registerVasAsPhysUser (h : CountInv st) (i vas vp link : Nat) :
    CountInv (Phys.registerVasAsPhysUser st i vas vp link) := by
  unfold Phys.registerVasAsPhysUser
  split
  · exact h.setPage rfl rfl rfl
  · exact h.setPage rfl rfl rfl

theorem CountInv.freeDiscardedPhys (h : CountInv st) {i : Nat} (hi : i ≤ st.maxIndex)
    (hexist : (st.table i).exist = true) (halloc : (st.table i).allocated = true) :
    CountInv (Phys.freeDiscardedPhys st i) := by
  have hle := freePages_le st
  have hsmall := h.small
  refine ⟨?_, ?_, ?_, h.small⟩
  · have hcount := count_update (t := st.table) (i := i) (n := st.maxIndex + 1)
      (e := { st.table i with
        chain := 0, origin := 0, allocated := false, dirty := false, wired := 0, lru := 0 })
      (by omega) (by simp [PhysPage.isFree, halloc]) (by simp [PhysPage.isFree, hexist])
    have hold := h.counter
    unfold PhysState.freePages Phys.freeDiscardedPhys at *
    rw [hcount, hold, wadd_eq (by omega)]
  · show (Function.update st.table i _ 0).exist = false
    rw [Function.update_apply]
    split
    · next h0 =>
      rw [← h0]
      exact h.first
    · exact h.first
  · intro j hj
    show (Function.update st.table i _ j).exist = true →
      (Function.update st.table i _ j).lock = false
    rw [Function.update_apply]
    split
    · exact h.unlocked i hi
    · exact h.unlocked j hj

theorem CountInv.dropUsersAndFree (h : CountInv st) {i : Nat} (hi : i ≤ st.maxIndex)
    (hexist : (st.table i).exist = true) (halloc : (st.table i).allocated = true) :
    CountInv (Phys.dropUsersAndFree st i) := by
  have hsame : ∀ pp, (st.setPage i pp).table i = pp := fun pp =>
    Function.update_self (β := fun _ => PhysPage) i pp st.table
  have hdrop := h.setPage (i := i) (e := { st.table i with vas := 0, vp := 0 }) rfl rfl rfl
  refine hdrop.freeDiscardedPhys hi ?_ ?_
  · rw [hsame]
    exact hexist
  · rw [hsame]
    exact halloc

theorem CountInv.apply (h : CountInv st) {op : PhysOp} (hop : op.FreesAllocated st) :
    CountInv (op.apply st) := by
  cases op with
  | allocPhys pin => exact h.allocPhys pin
  | publishFrame i origin => exact h.setPage rfl rfl rfl
  | registerVasAsPhysUser i vas vp link => exact h.registerVasAsPhysUser i vas vp link
  | markKernelPageDiscardable i origin vas vp => exact h.setPage rfl rfl rfl
  | discardPage i => exact h.dropUsersAndFree hop.1 hop.2.1 hop.2.2
  | releaseVirtPage i => exact h.dropUsersAndFree hop.1 hop.2.1 hop.2.2

end Ops

/-! ## The start -/

/-- Entries of the memory table do not overlap. -/
def NonOverlapping (table : List BootMemoryEntry) : Prop :=
  table.Pairwise fun e f => e.address + e.length ≤ f.address ∨ f.address + f.length ≤ e.address

/-- No page below `n` is in the page ranges of two available entries. -/
def PagesOnce (table : List BootMemoryEntry) (n : Nat) : Prop :=
  table.Pairwise fun e f => e.available = true → f.available = true →
    ∀ j < n, j ∈ e.pages → j ∉ f.pages

/-- Below 16 TiB the page numbers are not cut, and entries that do not overlap share no page. -/
theorem NonOverlapping.pagesOnce {table : List BootMemoryEntry} (h : NonOverlapping table)
    (hhigh : ∀ e ∈ table, e.address + e.length < 17592186040320) (n : Nat) :
    PagesOnce table n := by
  refine List.Pairwise.imp_of_mem (fun {e f} he hf hef => ?_) h
  intro _ _ j _ hje hjf
  have hpage : ∀ g : BootMemoryEntry, g.address + g.length < 17592186040320 → j ∈ g.pages →
      g.address ≤ j * 4096 ∧ j * 4096 + 4096 ≤ g.address + g.length := by
    intro g hg hj
    unfold BootMemoryEntry.pages BootMemoryEntry.pageStart BootMemoryEntry.pageEnd at hj
    rw [List.mem_range'_1] at hj
    omega
  have h1 := hpage e (hhigh e he) hje
  have h2 := hpage f (hhigh f hf) hjf
  omega

/-- The second loop counts the pages that it marks. -/
structure Marking (maxAddr : Nat) (st : PhysState) : Prop where
  counter : st.freePp = Nat.count (fun i => (st.table i).exist = true) st.maxIndex
  notLeftOut : ∀ i < st.maxIndex, (st.table i).exist = true → leftOut maxAddr i = false
  small : st.maxIndex < 1048576

section Marking

variable {st : PhysState} {maxAddr : Nat}

/-- An entry that is not marked yet is marked, and the counter goes up. -/
theorem count_setExists (st : PhysState) {i n : Nat} (hi : i < n) (hnew : (st.table i).exist = false) :
    Nat.count (fun j => ((st.setExists i).table j).exist = true) n =
      Nat.count (fun j => (st.table j).exist = true) n + 1 := by
  refine count_insert hi (by rw [hnew]; simp) fun j => ?_
  rw [setExists_table]
  split
  · next hj => simp [hj]
  · next hj => simp [hj]

theorem Marking.markPage (h : Marking maxAddr st) {j : Nat}
    (hnew : j < st.maxIndex → (st.table j).exist = false) :
    Marking maxAddr (Phys.markPage maxAddr st j) ∧
      ∀ i, ((Phys.markPage maxAddr st j).table i).exist = true →
        (st.table i).exist = true ∨ i = j := by
  unfold Phys.markPage
  split
  · exact ⟨h, fun i hi => Or.inl hi⟩
  · next hleft =>
    split
    · next hj =>
      have hexist : ∀ i, (({ st with freePp := wadd st.freePp 1 }.setExists j).table i).exist =
          true → (st.table i).exist = true ∨ i = j := by
        intro i
        rw [setExists_table]
        split
        · next hij => exact fun _ => Or.inr hij
        · exact Or.inl
      refine ⟨⟨?_, fun i hi hie => ?_, h.small⟩, hexist⟩
      · have hcount := count_setExists { st with freePp := wadd st.freePp 1 } hj (hnew hj)
        have hle : Nat.count (fun i => (st.table i).exist = true) st.maxIndex ≤ st.maxIndex :=
          Nat.count_le _
        have hsmall := h.small
        refine Eq.trans ?_ hcount.symm
        show wadd st.freePp 1 = _
        rw [h.counter, wadd_eq (by omega)]
      · rcases hexist i hie with hold | rfl
        · exact h.notLeftOut i hi hold
        · simpa using hleft
    · exact ⟨h, fun i hi => Or.inl hi⟩

theorem Marking.markPages {l : List Nat} (hl : l.Nodup) (h : Marking maxAddr st)
    (hnew : ∀ j ∈ l, j < st.maxIndex → (st.table j).exist = false) :
    Marking maxAddr (l.foldl (Phys.markPage maxAddr) st) ∧
      ∀ i, ((l.foldl (Phys.markPage maxAddr) st).table i).exist = true →
        (st.table i).exist = true ∨ i ∈ l := by
  induction l generalizing st with
  | nil => exact ⟨h, fun i hi => Or.inl hi⟩
  | cons j l ih =>
    obtain ⟨hj, hl'⟩ := List.nodup_cons.mp hl
    obtain ⟨hmark, hexist⟩ := h.markPage (hnew j List.mem_cons_self)
    have hmax : (Phys.markPage maxAddr st j).maxIndex = st.maxIndex :=
      (onlyMarked_markPage j).maxIndex
    obtain ⟨hrest, hrestExist⟩ := ih hl' hmark fun k hk hklt => by
      by_contra hmarked
      rcases hexist k (by simpa using hmarked) with hold | rfl
      · rw [hnew k (List.mem_cons_of_mem _ hk) (by omega)] at hold
        cases hold
      · exact hj hk
    refine ⟨hrest, fun i hi => ?_⟩
    rcases hrestExist i hi with hmid | hmem
    · rcases hexist i hmid with hold | rfl
      · exact Or.inl hold
      · exact Or.inr List.mem_cons_self
    · exact Or.inr (List.mem_cons_of_mem _ hmem)

/-- One entry of the memory table. -/
theorem Marking.markEntry (h : Marking maxAddr st) {e : BootMemoryEntry}
    (hnew : e.available = true → ∀ j ∈ e.pages, j < st.maxIndex → (st.table j).exist = false) :
    Marking maxAddr (Phys.markEntry maxAddr st e) ∧
      ∀ i, ((Phys.markEntry maxAddr st e).table i).exist = true →
        (st.table i).exist = true ∨ e.available = true ∧ i ∈ e.pages := by
  unfold Phys.markEntry
  split
  · next hav =>
    have hcounted : Marking maxAddr
        { st with totalPp := wadd st.totalPp (wsub e.pageEnd e.pageStart) } :=
      ⟨h.counter, h.notLeftOut, h.small⟩
    obtain ⟨hmark, hexist⟩ := hcounted.markPages (l := e.pages) List.nodup_range' (hnew hav)
    exact ⟨hmark, fun i hi => (hexist i hi).imp id fun hmem => ⟨hav, hmem⟩⟩
  · exact ⟨h, fun i hi => Or.inl hi⟩

theorem Marking.markEntries {table : List BootMemoryEntry} (h : Marking maxAddr st)
    (honce : PagesOnce table st.maxIndex)
    (hnew : ∀ e ∈ table, e.available = true → ∀ j ∈ e.pages, j < st.maxIndex →
      (st.table j).exist = false) :
    Marking maxAddr (table.foldl (Phys.markEntry maxAddr) st) := by
  induction table generalizing st with
  | nil => exact h
  | cons e table ih =>
    obtain ⟨hfirst, hrest⟩ := List.pairwise_cons.mp honce
    obtain ⟨hmark, hexist⟩ := h.markEntry (hnew e List.mem_cons_self)
    have hmax : (Phys.markEntry maxAddr st e).maxIndex = st.maxIndex :=
      (onlyMarked_markEntry e).maxIndex
    refine ih hmark (by rw [hmax]; exact hrest) fun f hf hav j hj hjlt => ?_
    rw [hmax] at hjlt
    by_contra hmarked
    rcases hexist j (by simpa using hmarked) with hold | ⟨hav', hj'⟩
    · rw [hnew f (List.mem_cons_of_mem _ hf) hav j hj hjlt] at hold
      cases hold
    · exact hfirst f hf hav' hav j hjlt hj' hj

/-! ### The entry that no loop writes -/

/-- The loops leave the entry at `sys_pp_table_max_index` as it is. -/
def LastKept (st st' : PhysState) : Prop :=
  st'.maxIndex = st.maxIndex ∧ st'.table st.maxIndex = st.table st.maxIndex

theorem LastKept.trans {st' st'' : PhysState} (h : LastKept st st') (h' : LastKept st' st'') :
    LastKept st st'' := by
  obtain ⟨hmax, hlast⟩ := h
  obtain ⟨hmax', hlast'⟩ := h'
  rw [hmax] at hmax' hlast'
  exact ⟨hmax', hlast'.trans hlast⟩

theorem lastKept_setExists (st : PhysState) {i : Nat} (hi : i < st.maxIndex) : LastKept st (st.setExists i) := by
  refine ⟨rfl, ?_⟩
  rw [setExists_table, if_neg (by omega)]

theorem lastKept_foldl {α : Type} {f : PhysState → α → PhysState}
    (hf : ∀ st a, LastKept st (f st a)) (l : List α) (st : PhysState) :
    LastKept st (l.foldl f st) := by
  induction l generalizing st with
  | nil => exact ⟨rfl, rfl⟩
  | cons a l ih => exact (hf st a).trans (ih (f st a))

theorem lastKept_markPage (j : Nat) : LastKept st (Phys.markPage maxAddr st j) := by
  unfold Phys.markPage
  split
  · exact ⟨rfl, rfl⟩
  · split
    · next hj =>
      exact lastKept_setExists { st with freePp := wadd st.freePp 1 } hj
    · exact ⟨rfl, rfl⟩

theorem lastKept_markEntry (e : BootMemoryEntry) : LastKept st (Phys.markEntry maxAddr st e) := by
  unfold Phys.markEntry
  split
  · have hcount : LastKept st
        { st with totalPp := wadd st.totalPp (wsub e.pageEnd e.pageStart) } := ⟨rfl, rfl⟩
    exact hcount.trans (lastKept_foldl (fun st j => lastKept_markPage j) _ _)
  · exact ⟨rfl, rfl⟩

theorem lastKept_addBootPages (h : 12 < st.maxIndex) : LastKept st (addBootPages st) := by
  have hcount : LastKept st { st with freePp := wadd st.freePp 2 } := ⟨rfl, rfl⟩
  refine (hcount.trans (lastKept_setExists _ (i := 10) ?_)).trans (lastKept_setExists _ ?_)
  · show 10 < st.maxIndex
    omega
  · exact h

/-- The boot pages are counted as they are marked. -/
theorem Marking.addBootPages (h : Marking maxAddr st) (hmax : 12 < st.maxIndex) :
    (Phys.addBootPages st).freePp =
      Nat.count (fun i => ((Phys.addBootPages st).table i).exist = true) st.maxIndex := by
  have hten : (st.table 10).exist = false := by
    by_contra hmarked
    have := h.notLeftOut 10 (by omega) (by simpa using hmarked)
    simp [leftOut, wmul] at this
  have htwelve : ((st.setExists 10).table 12).exist = false := by
    rw [setExists_table, if_neg (by omega)]
    by_contra hmarked
    have := h.notLeftOut 12 (by omega) (by simpa using hmarked)
    simp [leftOut, wmul] at this
  have h1 := count_setExists st (i := 10) (n := st.maxIndex) (by omega) hten
  have h2 := count_setExists (st.setExists 10) (i := 12) (n := st.maxIndex) hmax htwelve
  have hle : Nat.count (fun i => (st.table i).exist = true) st.maxIndex ≤ st.maxIndex :=
    Nat.count_le _
  have hsmall := h.small
  have hcounter : (Phys.addBootPages st).freePp = wadd st.freePp 2 := rfl
  rw [hcounter, h.counter, wadd_eq (by omega)]
  rw [h1] at h2
  exact h2.symm

end Marking

/-- What the memory of the last entry holds is not taken for a page that is free. -/
def LastNotFree (pp : PhysPage) : Prop :=
  pp.exist = true → pp.allocated = true ∧ pp.lock = false

theorem clearedTable_of_lt (before : Nat → PhysPage) {i n : Nat} (hi : i < n) :
    (clearedTable before n).table i = clearedPage := if_pos hi

theorem marking_cleared (before : Nat → PhysPage) (maxAddr : Nat) {n : Nat} (hn : n < 1048576) :
    Marking maxAddr (clearedTable before n) := by
  have hclear : ∀ i < n, ((clearedTable before n).table i).exist = false := fun i hi =>
    congrArg PhysPage.exist (clearedTable_of_lt before hi)
  refine ⟨(Nat.eq_zero_of_not_pos fun hpos => ?_).symm, fun i hi hie => ?_, hn⟩
  · obtain ⟨i, hi, hie⟩ := count_pos_iff.mp hpos
    rw [hclear i hi] at hie
    cases hie
  · rw [hclear i hi] at hie
    cases hie

/-- `InitPhys` sets the counter to the number of free pages. -/
theorem countInv_initPhys {before : Nat → PhysPage} {table : List BootMemoryEntry}
    {kernelEnd : Nat} (hmin : 12 < sysPpTableMaxIndex table kernelEnd)
    (hmax : sysPpTableMaxIndex table kernelEnd < 1048576)
    (honce : PagesOnce table (sysPpTableMaxIndex table kernelEnd))
    (hlast : LastNotFree (before (sysPpTableMaxIndex table kernelEnd))) :
    CountInv (initPhys before table kernelEnd) := by
  unfold initPhys
  generalize sysPpTableMaxIndex table kernelEnd = n at *
  have hflags : OnlyMarked (clearedTable before n)
      (table.foldl (markEntry (maxAddrUsedNow table kernelEnd)) (clearedTable before n)) :=
    onlyMarked_foldl (fun st e => onlyMarked_markEntry e) _ _
  have hkept : LastKept (clearedTable before n)
      (table.foldl (markEntry (maxAddrUsedNow table kernelEnd)) (clearedTable before n)) :=
    lastKept_foldl (fun st e => lastKept_markEntry e) _ _
  have hmark : Marking (maxAddrUsedNow table kernelEnd)
      (table.foldl (markEntry (maxAddrUsedNow table kernelEnd)) (clearedTable before n)) :=
    (marking_cleared before _ hmax).markEntries honce fun e _ _ j _ hj =>
      congrArg PhysPage.exist (clearedTable_of_lt before hj)
  generalize table.foldl (markEntry (maxAddrUsedNow table kernelEnd)) (clearedTable before n) =
    marked at *
  have hindex : marked.maxIndex = n := hflags.maxIndex
  have hend : (addBootPages marked).maxIndex = n := hflags.maxIndex
  have hall : OnlyMarked (clearedTable before n) (addBootPages marked) :=
    hflags.trans onlyMarked_addBootPages
  have hcount := hmark.addBootPages (by omega)
  have hlastEntry : (addBootPages marked).table n = before n := by
    have h := (hkept.trans (lastKept_addBootPages (by omega))).2
    exact h.trans (clearedTable_last before n)
  have hfresh : ∀ i < n, ((addBootPages marked).table i).allocated = false ∧
      ((addBootPages marked).table i).lock = false := by
    intro i hi
    have hflag := hall.flags i
    rw [clearedTable_of_lt before hi] at hflag
    exact ⟨congrArg PhysPage.allocated hflag, congrArg PhysPage.lock hflag⟩
  refine ⟨?_, ?_, fun i hi hie => ?_, by omega⟩
  · have hbelow : Nat.count (fun i => ((addBootPages marked).table i).exist = true) n =
        Nat.count (fun i => ((addBootPages marked).table i).isFree = true) n :=
      count_congr fun i hi => by rw [PhysPage.isFree_iff, (hfresh i hi).1]; simp
    have hnot : ((addBootPages marked).table n).isFree ≠ true := by
      rw [hlastEntry, Ne, PhysPage.isFree_iff]
      rintro ⟨hie, halloc⟩
      rw [(hlast hie).1] at halloc
      cases halloc
    unfold PhysState.freePages
    rw [hend, Nat.count_succ, if_neg hnot, hcount, hindex, hbelow, Nat.add_zero]
  · have hfirst : (addBootPages marked).table 0 = marked.table 0 := by
      unfold addBootPages
      rw [setExists_table, if_neg (by decide), setExists_table, if_neg (by decide)]
    rw [hfirst]
    by_contra hmarked
    have := hmark.notLeftOut 0 (by omega) (by simpa using hmarked)
    simp [leftOut, wmul] at this
  · by_cases hin : i = n
    · subst hin
      rw [hlastEntry] at hie ⊢
      exact (hlast hie).2
    · exact (hfresh i (by omega)).2

/-! ## Runs -/

/-- A step of the kernel at the table of pages. -/
def PhysStep (kernelEnd : Nat) (st st' : PhysState) : Prop :=
  ∃ op : PhysOp, op.Enabled kernelEnd st ∧ st' = op.apply st

/-- A step that gives back only pages of the table that are allocated. -/
def OwnedStep (kernelEnd : Nat) (st st' : PhysState) : Prop :=
  ∃ op : PhysOp, op.Enabled kernelEnd st ∧ op.FreesAllocated st ∧ st' = op.apply st

/--
**The counter is exact.** Where the memory map gives each page once and the last entry of the
table does not read as a free page, the counter is the number of free pages after any run in
which each page that `FreeDiscardedPhys` gets was allocated.
-/
theorem free_counter_exact (before : Nat → PhysPage) (table : List BootMemoryEntry)
    (kernelEnd : Nat) (hmin : 12 < sysPpTableMaxIndex table kernelEnd)
    (hmax : sysPpTableMaxIndex table kernelEnd < 1048576)
    (honce : PagesOnce table (sysPpTableMaxIndex table kernelEnd))
    (hlast : LastNotFree (before (sysPpTableMaxIndex table kernelEnd))) (st : PhysState)
    (hrun : Reaches (OwnedStep kernelEnd) (initPhys before table kernelEnd) st) :
    CounterExact st := by
  have hstart := countInv_initPhys hmin hmax honce hlast
  have hinv : CountInv st := hrun.invariant hstart fun a b ha hstep => by
    obtain ⟨op, -, hop, rfl⟩ := hstep
    exact ha.apply hop
  exact hinv.exact

/-- A page is allocated, published, mapped and discarded. -/
theorem free_counter_exact_discard : ∃ st, Reaches (OwnedStep 0x11000)
    (initPhys (fun _ => clearedPage) [⟨0, 0x14000, 0⟩] 0x11000) st ∧ CounterExact st := by
  have hrun : Reaches (OwnedStep 0x11000)
      (initPhys (fun _ => clearedPage) [⟨0, 0x14000, 0⟩] 0x11000) _ :=
    (((Relation.ReflTransGen.refl.tail ⟨.allocPhys true, trivial, trivial, rfl⟩).tail
      ⟨.publishFrame 1 7, by decide, trivial, rfl⟩).tail
      ⟨.registerVasAsPhysUser 1 8 9 0, by decide, trivial, rfl⟩).tail
      ⟨.discardPage 1, by decide, by decide, rfl⟩
  exact ⟨_, hrun, free_counter_exact (fun _ => clearedPage) [⟨0, 0x14000, 0⟩] 0x11000 (by decide)
    (by decide) (by simp [PagesOnce]) (by simp [LastNotFree, clearedPage]) _ hrun⟩

/-- A page of the kernel image is counted when it is discarded, and does not exist. -/
theorem discarded_kernel_page_counted : NonOverlapping [⟨0, 0x14000, 0⟩] ∧
    ∃ st, Reaches (PhysStep 0x11000)
      (initPhys (fun _ => clearedPage) [⟨0, 0x14000, 0⟩] 0x11000) st ∧ ¬ CounterExact st := by
  refine ⟨by simp [NonOverlapping], _,
    (Relation.ReflTransGen.refl.tail ⟨.markKernelPageDiscardable 16 7 8 9, by decide, rfl⟩).tail
      ⟨.discardPage 16, by decide, rfl⟩, fun h => ?_⟩
  have hcounter := h.counter
  revert hcounter
  decide

end Nolrem.Phys
