import Nolrem.Word
import Nolrem.Lib.Count
import Nolrem.Lib.Transition

/-!
# The table of physical pages

`InitPhys`, the walk over the table and the allocator of `kernel/mem/phys.c`. The table lies
right after the kernel image, in memory whose contents are not known: what `InitPhys` does not
write keeps them. A `struct phys_page` is named by its index.
-/

namespace Nolrem.Phys

open Nolrem.Lib

/-! ## The code -/

/-- `struct boot_memory_entry`, three 64-bit numbers -/
structure BootMemoryEntry where
  address : Nat
  length : Nat
  info : Nat
deriving DecidableEq, Repr

/-- `struct phys_page`; pointers are numbers and 0 is `NULL`. -/
structure PhysPage where
  origin : Nat
  vas : Nat
  vp : Nat
  chain : Nat
  lru : Nat
  wired : Nat
  lock : Bool
  allocated : Bool
  exist : Bool
  dirty : Bool
deriving DecidableEq, Repr

/-- `memset` of an entry, and `InitSpinlock` -/
def clearedPage : PhysPage :=
  { origin := 0, vas := 0, vp := 0, chain := 0, lru := 0, wired := 0, lock := false
    allocated := false, exist := false, dirty := false }

/-- `sizeof(struct phys_page)` -/
def sizeofPhysPage : Nat := 24

/-- `BOOTRAM_GET_TYPE(entry.info) == BOOTRAM_TYPE_AVAILABLE` -/
def BootMemoryEntry.available (e : BootMemoryEntry) : Bool := e.info % 16 = 0

/-- `page_start`: 64-bit arithmetic, stored in a `size_t` -/
def BootMemoryEntry.pageStart (e : BootMemoryEntry) : Nat :=
  (e.address + 4095) % 18446744073709551616 / 4096 % 4294967296

/-- `page_end` -/
def BootMemoryEntry.pageEnd (e : BootMemoryEntry) : Nat :=
  (e.address + e.length) % 18446744073709551616 / 4096 % 4294967296

/-- `max_phys_page_idx` -/
def maxPhysPageIdx (table : List BootMemoryEntry) : Nat :=
  table.foldl (fun m e => if e.available then max m e.pageEnd else m) 0

/-- `max_kernel_addr`, where `kernelEnd` is the physical address of `_kernel_end` -/
def maxKernelAddr (kernelEnd : Nat) : Nat := wadd kernelEnd 4095 / 4096 * 4096

/-- `sys_pp_table_max_index` -/
def sysPpTableMaxIndex (table : List BootMemoryEntry) (kernelEnd : Nat) : Nat :=
  wsub (min (maxPhysPageIdx table) (wsub 4194304 (maxKernelAddr kernelEnd) / sizeofPhysPage)) 1

/-- `max_addr_used_now` -/
def maxAddrUsedNow (table : List BootMemoryEntry) (kernelEnd : Nat) : Nat :=
  wadd (maxKernelAddr kernelEnd)
    (wsub (wadd (wmul (sysPpTableMaxIndex table kernelEnd) sizeofPhysPage) 4096) 1 / 4096 * 4096)

structure PhysState where
  /-- `sys_pp_table` -/
  table : Nat → PhysPage
  maxIndex : Nat
  /-- `sys_free_pp` -/
  freePp : Nat
  /-- `sys_total_pp` -/
  totalPp : Nat
  /-- The messages `SYSMSG_LOWMEMORY` that were posted -/
  lowMemoryPosts : Nat

def PhysState.setExists (st : PhysState) (i : Nat) : PhysState :=
  { st with table := Function.update st.table i { st.table i with exist := true } }

/-- The pages that `InitPhys` leaves out: in use now, or used by the boot loader. -/
def leftOut (maxAddr j : Nat) : Bool :=
  (0x10000 ≤ wmul j 4096 && wmul j 4096 < maxAddr) ||
    (wmul j 4096 = 0 || wmul j 4096 = 0xA000 || wmul j 4096 = 0xC000)

/-- The body of the inner loop of `InitPhys`. -/
def markPage (maxAddr : Nat) (st : PhysState) (j : Nat) : PhysState :=
  if leftOut maxAddr j then st
  else if j < st.maxIndex then { st with freePp := wadd st.freePp 1 }.setExists j
  else st

/-- The pages of the inner loop. -/
def BootMemoryEntry.pages (e : BootMemoryEntry) : List Nat :=
  List.range' e.pageStart (e.pageEnd - e.pageStart)

/-- The body of the second loop over the memory table. -/
def markEntry (maxAddr : Nat) (st : PhysState) (e : BootMemoryEntry) : PhysState :=
  if e.available then
    e.pages.foldl (markPage maxAddr)
      { st with totalPp := wadd st.totalPp (wsub e.pageEnd e.pageStart) }
  else st

/-- The table before the second loop: `before` is what its memory held. -/
def clearedTable (before : Nat → PhysPage) (maxIndex : Nat) : PhysState :=
  { table := fun i => if i < maxIndex then clearedPage else before i
    maxIndex
    freePp := 0
    totalPp := 0
    lowMemoryPosts := 0 }

/-- The end of `InitPhys`: the boot table at `0xA000` and the memory table at `0xC000` are no
longer used. -/
def addBootPages (st : PhysState) : PhysState :=
  ({ st with freePp := wadd st.freePp 2 }.setExists (0xA000 / 4096)).setExists (0xC000 / 4096)

/-- `InitPhys` -/
def initPhys (before : Nat → PhysPage) (table : List BootMemoryEntry) (kernelEnd : Nat) :
    PhysState :=
  addBootPages (table.foldl (markEntry (maxAddrUsedNow table kernelEnd))
    (clearedTable before (sysPpTableMaxIndex table kernelEnd)))

/-- `GetNextPhysPage` -/
def getNextPhysPage (st : PhysState) (i : Nat) : Option Nat :=
  if i = st.maxIndex then none else some (i + 1)

/-- The loop of `AllocPhys`: the first page that is not locked and is free. -/
def allocScan (st : PhysState) : Nat → Nat → Option Nat
  | 0, _ => none
  | fuel + 1, i =>
    if (st.table i).lock = false ∧ (st.table i).exist = true ∧ (st.table i).allocated = false then
      some i
    else
      match getNextPhysPage st i with
      | none => none
      | some j => allocScan st fuel j

/-- `AllocPhys`; the walk has `maxIndex + 1` entries. -/
def allocPhys (st : PhysState) (pin : Bool) : PhysState × Nat :=
  match allocScan st (st.maxIndex + 1) 0 with
  | none => (st, 0)
  | some i =>
    ({ st with
        table := Function.update st.table i
          { st.table i with allocated := true, wired := if pin then 1 else 0 }
        freePp := wsub st.freePp 1
        lowMemoryPosts := if st.freePp ≤ 16 then st.lowMemoryPosts + 1 else st.lowMemoryPosts },
      wmul i 4096)

/-- `FreeDiscardedPhys` -/
def freeDiscardedPhys (st : PhysState) (i : Nat) : PhysState :=
  { st with
    table := Function.update st.table i
      { st.table i with
        chain := 0, origin := 0, allocated := false, dirty := false, wired := 0, lru := 0 }
    freePp := wadd st.freePp 1 }

/-! ## The walk -/

/-- The entries that a walk from `GetFirstPhysPage` visits. -/
inductive Visited (st : PhysState) : Nat → Prop where
  | first : Visited st 0
  | next {i j : Nat} (hi : Visited st i) (h : getNextPhysPage st i = some j) : Visited st j

/-- `InitPhys` has initialised an entry: nothing of what the memory held before is left in it. -/
def Initialised (table : List BootMemoryEntry) (kernelEnd i : Nat) : Prop :=
  ∀ before before', (initPhys before table kernelEnd).table i =
    (initPhys before' table kernelEnd).table i

/-- The frame lies in an available entry. -/
def InAvailable (table : List BootMemoryEntry) (i : Nat) : Prop :=
  ∃ e ∈ table, e.available = true ∧ e.address ≤ i * 4096 ∧ i * 4096 + 4096 ≤ e.address + e.length

/-- The frame overlaps the kernel image or the table of pages. -/
def InUseAtBoot (table : List BootMemoryEntry) (kernelEnd i : Nat) : Prop :=
  0x10000 < i * 4096 + 4096 ∧
    i * 4096 < maxKernelAddr kernelEnd + (sysPpTableMaxIndex table kernelEnd + 1) * sizeofPhysPage

/-- The walk stays in what `InitPhys` set up, and pages that exist are memory that can be used. -/
structure WalkSound (table : List BootMemoryEntry) (kernelEnd : Nat) : Prop where
  initialised : ∀ before i, Visited (initPhys before table kernelEnd) i →
    Initialised table kernelEnd i
  usable : ∀ before i, ((initPhys before table kernelEnd).table i).exist = true →
    (InAvailable table i ∨ i = 10 ∨ i = 12) ∧ ¬ InUseAtBoot table kernelEnd i

section Init

variable {st : PhysState} {before : Nat → PhysPage} {table : List BootMemoryEntry}
  {kernelEnd maxAddr : Nat}

theorem setExists_table (i j : Nat) : (st.setExists i).table j =
    if j = i then { st.table i with exist := true } else st.table j := Function.update_apply ..

/-- What the second loop does to the table: it sets `exist` bits and nothing else. -/
structure OnlyMarked (st st' : PhysState) : Prop where
  maxIndex : st'.maxIndex = st.maxIndex
  flags : ∀ i, { st'.table i with exist := (st.table i).exist } = st.table i
  kept : ∀ i, (st.table i).exist = true → (st'.table i).exist = true

theorem OnlyMarked.refl (st : PhysState) : OnlyMarked st st := ⟨rfl, fun _ => rfl, fun _ h => h⟩

theorem OnlyMarked.trans {st' st'' : PhysState} (h : OnlyMarked st st')
    (h' : OnlyMarked st' st'') : OnlyMarked st st'' :=
  ⟨h'.maxIndex.trans h.maxIndex, fun i => by
    have h1 := h.flags i
    have h2 := h'.flags i
    rw [← h2] at h1
    exact h1, fun i hi => h'.kept i (h.kept i hi)⟩

theorem onlyMarked_setExists (i : Nat) : OnlyMarked st (st.setExists i) := by
  refine ⟨rfl, fun j => ?_, fun j hj => ?_⟩ <;> rw [setExists_table]
  · split
    · next hj => rw [hj]
    · rfl
  · split
    · rfl
    · exact hj

theorem onlyMarked_counters (f t : Nat) :
    OnlyMarked st { st with freePp := f, totalPp := t } := ⟨rfl, fun _ => rfl, fun _ h => h⟩

theorem onlyMarked_markPage (j : Nat) : OnlyMarked st (markPage maxAddr st j) := by
  unfold markPage
  split
  · exact .refl st
  · split
    · exact (onlyMarked_counters _ st.totalPp).trans (onlyMarked_setExists j)
    · exact .refl st

theorem onlyMarked_foldl {α : Type} {f : PhysState → α → PhysState}
    (hf : ∀ st a, OnlyMarked st (f st a)) (l : List α) (st : PhysState) :
    OnlyMarked st (l.foldl f st) := by
  induction l generalizing st with
  | nil => exact .refl st
  | cons a l ih => exact (hf st a).trans (ih (f st a))

theorem onlyMarked_markEntry (e : BootMemoryEntry) : OnlyMarked st (markEntry maxAddr st e) := by
  unfold markEntry
  split
  · exact (onlyMarked_counters st.freePp _).trans
      (onlyMarked_foldl (fun st j => onlyMarked_markPage j) _ _)
  · exact .refl st

theorem onlyMarked_addBootPages : OnlyMarked st (addBootPages st) := by
  have hcount : OnlyMarked st { st with freePp := wadd st.freePp 2 } :=
    onlyMarked_counters _ st.totalPp
  exact (hcount.trans (onlyMarked_setExists _)).trans (onlyMarked_setExists _)

theorem onlyMarked_initPhys (before : Nat → PhysPage) (table : List BootMemoryEntry)
    (kernelEnd : Nat) : OnlyMarked (clearedTable before (sysPpTableMaxIndex table kernelEnd))
      (initPhys before table kernelEnd) := by
  have hloop := onlyMarked_foldl (f := markEntry (maxAddrUsedNow table kernelEnd))
    (fun st e => onlyMarked_markEntry e) table
    (clearedTable before (sysPpTableMaxIndex table kernelEnd))
  exact hloop.trans onlyMarked_addBootPages

theorem OnlyMarked.allocated {st' : PhysState} (h : OnlyMarked st st') (i : Nat) :
    (st'.table i).allocated = (st.table i).allocated := by
  rw [← h.flags i]

/-- The walk visits the entry at `sys_pp_table_max_index`. -/
theorem visited_le {i : Nat} (hi : i ≤ st.maxIndex) : Visited st i := by
  induction i with
  | zero => exact .first
  | succ i ih => exact .next (ih (by omega)) (if_neg (by omega))

/-- The clearing loop ends before the last entry. -/
theorem clearedTable_last (before : Nat → PhysPage) (n : Nat) :
    (clearedTable before n).table n = before n := if_neg (lt_irrefl n)

theorem last_not_initialised (table : List BootMemoryEntry) (kernelEnd : Nat) :
    ¬ Initialised table kernelEnd (sysPpTableMaxIndex table kernelEnd) := by
  have hflag : ∀ before : Nat → PhysPage,
      ((initPhys before table kernelEnd).table (sysPpTableMaxIndex table kernelEnd)).allocated =
        (before (sysPpTableMaxIndex table kernelEnd)).allocated := by
    intro before
    rw [(onlyMarked_initPhys before table kernelEnd).allocated, clearedTable_last]
  intro h
  have hsame := congrArg PhysPage.allocated
    (h (fun _ => clearedPage) fun _ => { clearedPage with allocated := true })
  rw [hflag, hflag] at hsame
  cases hsame

end Init

/--
**The walk leaves the table.** Whatever the memory map and wherever the kernel ends, a walk
visits the entry at `sys_pp_table_max_index`, which `InitPhys` has not initialised.
-/
theorem phys_walk_not_sound (table : List BootMemoryEntry) (kernelEnd : Nat) :
    ¬ WalkSound table kernelEnd := by
  intro h
  have hmax : (initPhys (fun _ => clearedPage) table kernelEnd).maxIndex =
      sysPpTableMaxIndex table kernelEnd := (onlyMarked_initPhys _ table kernelEnd).maxIndex
  exact last_not_initialised table kernelEnd
    (h.initialised (fun _ => clearedPage) _ (visited_le (le_of_eq hmax.symm)))

/-- With 640 KiB of low memory and 31 MiB above 1 MiB, and the kernel below 1 MiB. -/
theorem phys_walk_reads_stale_entry :
    ¬ WalkSound [⟨0, 0xA0000, 0⟩, ⟨0x100000, 0x1F00000, 0⟩] 0x80000 := by
  intro h
  refine last_not_initialised _ _ (h.initialised (fun _ => clearedPage) _ (visited_le ?_))
  exact le_of_eq (onlyMarked_initPhys _ _ _).maxIndex.symm

end Nolrem.Phys
