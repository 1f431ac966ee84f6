import Nolrem.Lib.Transition
import Nolrem.Vmm.Mappings

/-!
# Slots of the mapping tables

`GetVirtualPageSlot` of `kernel/mem/vmm.c` on tables in memory. A table is named by the call of
`AllocVmmHeap` that gave it, so a new table is no other; what was in its memory before is
arbitrary.
-/

namespace Nolrem.Vmm

open Nolrem.Lib

variable {α : Type}

/-- `MAPPINGS_PER_LEVEL` -/
def mappingsPerLevel : Nat := 128

/-- `&table2[level_3]` -/
structure Slot where
  table2 : Nat
  index : Nat
deriving DecidableEq, Repr

/-- `struct vas`, with the memory of the tables it points to, and the calls of `AllocVmmHeap` -/
structure Vas (α : Type) where
  mappings : Nat → Option Nat
  tables : Nat → Nat → Option Nat
  tables2 : Nat → Nat → Option α
  calls : Nat

/-- `memset(table, 0, MAPPINGS_PER_LEVEL * sizeof(...))` -/
def clearTable {β : Type} (table : Nat → Option β) : Nat → Option β :=
  fun k => if k < mappingsPerLevel then none else table k

namespace Vas

/-- A new address space: its tables are cleared. -/
def new (vas : Vas α) : Vas α := { vas with mappings := clearTable vas.mappings }

/-- A table of the second level joins `mappings`. -/
def addTable (vas : Vas α) (virt : Nat) : Vas α :=
  { vas with
    mappings := Function.update vas.mappings (mapLevel1 virt) (some vas.calls)
    tables := Function.update vas.tables vas.calls (clearTable (vas.tables vas.calls))
    calls := vas.calls + 1 }

/-- A table of the third level joins `table`. -/
def addTable2 (vas : Vas α) (table virt : Nat) : Vas α :=
  { vas with
    tables := Function.update vas.tables table
      (Function.update (vas.tables table) (mapLevel2 virt) (some vas.calls))
    tables2 := Function.update vas.tables2 vas.calls (clearTable (vas.tables2 vas.calls))
    calls := vas.calls + 1 }

/-- A call of `AllocVmmHeap` that fails -/
def noMemory (vas : Vas α) : Vas α := { vas with calls := vas.calls + 1 }

/-- `GetVirtualPageSlot` from its second table on -/
def slotOfTable (heap : Nat → Bool) (vas : Vas α) (table virt : Nat) (create : Bool) :
    Option Slot × Vas α :=
  match vas.tables table (mapLevel2 virt) with
  | some table2 => (some ⟨table2, mapLevel3 virt⟩, vas)
  | none =>
    if !create then (none, vas)
    else if heap vas.calls then (some ⟨vas.calls, mapLevel3 virt⟩, vas.addTable2 table virt)
    else (none, vas.noMemory)

/-- `GetVirtualPageSlot`, where `heap` says which calls of `AllocVmmHeap` succeed -/
def getVirtualPageSlot (heap : Nat → Bool) (vas : Vas α) (virt : Nat) (create : Bool) :
    Option Slot × Vas α :=
  if mapLevel1 virt ≥ mappingsPerLevel then (none, vas)
  else
    match vas.mappings (mapLevel1 virt) with
    | some table => vas.slotOfTable heap table virt create
    | none =>
      if !create then (none, vas)
      else if heap vas.calls then (vas.addTable virt).slotOfTable heap vas.calls virt create
      else (none, vas.noMemory)

/-- `*slot` -/
def read (vas : Vas α) (slot : Slot) : Option α := vas.tables2 slot.table2 slot.index

/-- `*slot = vp` -/
def store (vas : Vas α) (slot : Slot) (vp : Option α) : Vas α :=
  { vas with
    tables2 := Function.update vas.tables2 slot.table2
      (Function.update (vas.tables2 slot.table2) slot.index vp) }

/-- `GetVirtualPageFromVirt` -/
def getVirtualPageFromVirt (heap : Nat → Bool) (vas : Vas α) (virt : Nat) : Option α :=
  match (vas.getVirtualPageSlot heap virt false).1 with
  | none => none
  | some slot => vas.read slot

/-! ## The slot of a page -/

/-- The slot that is there, without a call that could create one -/
def findSlot (vas : Vas α) (virt : Nat) : Option Slot :=
  if mapLevel1 virt ≥ mappingsPerLevel then none
  else (vas.mappings (mapLevel1 virt)).bind fun table =>
    (vas.tables table (mapLevel2 virt)).map fun table2 => ⟨table2, mapLevel3 virt⟩

/-- What the page at `virt` has in its slot -/
def lookup (vas : Vas α) (virt : Nat) : Option α := (vas.findSlot virt).bind vas.read

theorem mapLevel2_lt (virt : Nat) : mapLevel2 virt < mappingsPerLevel := Nat.mod_lt _ (by decide)

theorem mapLevel3_lt (virt : Nat) : mapLevel3 virt < mappingsPerLevel := Nat.mod_lt _ (by decide)

theorem clearTable_of_lt {β : Type} {table : Nat → Option β} {k : Nat} (h : k < mappingsPerLevel) :
    clearTable table k = none := if_pos h

theorem findSlot_of_low {vas : Vas α} {virt : Nat} (h : ¬ mapLevel1 virt ≥ mappingsPerLevel) :
    vas.findSlot virt = (vas.mappings (mapLevel1 virt)).bind fun table =>
      (vas.tables table (mapLevel2 virt)).map fun table2 => ⟨table2, mapLevel3 virt⟩ := if_neg h

theorem findSlot_eq_some {vas : Vas α} {virt : Nat} {slot : Slot} :
    vas.findSlot virt = some slot ↔ mapLevel1 virt < mappingsPerLevel ∧
      ∃ table, vas.mappings (mapLevel1 virt) = some table ∧
        vas.tables table (mapLevel2 virt) = some slot.table2 ∧ slot.index = mapLevel3 virt := by
  unfold findSlot
  split
  next h =>
    simp only [reduceCtorEq, false_iff]
    exact fun hlow => absurd hlow.1 (by omega)
  next h =>
    simp only [Option.bind_eq_some_iff, Option.map_eq_some_iff]
    constructor
    · rintro ⟨table, ht, table2, ht2, rfl⟩
      exact ⟨by omega, table, ht, ht2, rfl⟩
    · rintro ⟨-, table, ht, ht2, hindex⟩
      exact ⟨table, ht, slot.table2, ht2, by rw [← hindex]⟩

/-- The slot of an address is that of its page. -/
theorem findSlot_congr (vas : Vas α) {v virt : Nat} (h : v / 4096 = virt / 4096) :
    vas.findSlot v = vas.findSlot virt := by
  obtain ⟨h1, h2, h3⟩ := level_eq_iff.mpr h
  rw [findSlot, findSlot, h1, h2, h3]

theorem getVirtualPageSlot_false (heap : Nat → Bool) (vas : Vas α) (virt : Nat) :
    vas.getVirtualPageSlot heap virt false = (vas.findSlot virt, vas) := by
  unfold getVirtualPageSlot
  split
  next h => rw [findSlot, if_pos h]
  next h =>
    rw [findSlot_of_low h]
    cases vas.mappings (mapLevel1 virt) with
    | none => rfl
    | some table =>
      simp only [slotOfTable, Option.bind_some]
      cases vas.tables table (mapLevel2 virt) <;> rfl

theorem getVirtualPageFromVirt_eq (heap : Nat → Bool) (vas : Vas α) (virt : Nat) :
    vas.getVirtualPageFromVirt heap virt = vas.lookup virt := by
  rw [getVirtualPageFromVirt, getVirtualPageSlot_false, lookup]
  cases vas.findSlot virt <;> rfl

/-! ## No table is shared -/

/-- Each table was allocated, and has one place in the table above it. -/
structure WellFormed (vas : Vas α) : Prop where
  table_lt : ∀ {i table}, i < mappingsPerLevel → vas.mappings i = some table → table < vas.calls
  table_inj : ∀ {i j table}, i < mappingsPerLevel → j < mappingsPerLevel →
    vas.mappings i = some table → vas.mappings j = some table → i = j
  slot_lt : ∀ {virt slot}, vas.findSlot virt = some slot → slot.table2 < vas.calls
  slot_inj : ∀ {v w slot slot'}, vas.findSlot v = some slot → vas.findSlot w = some slot' →
    slot.table2 = slot'.table2 → mapLevel1 v = mapLevel1 w ∧ mapLevel2 v = mapLevel2 w

/-- Two pages have two slots. -/
theorem WellFormed.findSlot_inj {vas : Vas α} (hwf : vas.WellFormed) {v w : Nat} {slot slot' : Slot}
    (hv : vas.findSlot v = some slot) (hw : vas.findSlot w = some slot') :
    slot = slot' ↔ v / 4096 = w / 4096 := by
  constructor
  · rintro rfl
    obtain ⟨h1, h2⟩ := hwf.slot_inj hv hw rfl
    obtain ⟨-, -, -, -, h3⟩ := findSlot_eq_some.mp hv
    obtain ⟨-, -, -, -, h3'⟩ := findSlot_eq_some.mp hw
    exact level_eq_iff.mp ⟨h1, h2, h3.symm.trans h3'⟩
  · intro h
    rw [vas.findSlot_congr h, hw] at hv
    exact (Option.some.inj hv).symm

theorem wellFormed_new (vas : Vas α) : (new vas).WellFormed := by
  have hempty : ∀ {i table}, i < mappingsPerLevel → (new vas).mappings i ≠ some table := by
    intro i table hi h
    have hclear : clearTable vas.mappings i = none := clearTable_of_lt hi
    cases hclear.symm.trans h
  have hslot : ∀ {virt slot}, (new vas).findSlot virt ≠ some slot := by
    intro virt slot h
    obtain ⟨hlow, table, ht, -⟩ := findSlot_eq_some.mp h
    exact hempty hlow ht
  exact ⟨fun hi h => absurd h (hempty hi), fun hi _ h => absurd h (hempty hi),
    fun h => absurd h hslot, fun h => absurd h hslot⟩

/-! ## New tables -/

section
variable {vas : Vas α} {virt : Nat}

/-- The new table is empty, and all others are as before. -/
theorem findSlot_addTable (hwf : vas.WellFormed) (hnone : vas.mappings (mapLevel1 virt) = none)
    (v : Nat) : (vas.addTable virt).findSlot v = vas.findSlot v := by
  unfold findSlot addTable
  split
  · rfl
  · next hlow =>
    simp only
    by_cases h1 : mapLevel1 v = mapLevel1 virt
    · rw [h1, Function.update_self, Option.bind_some, Function.update_self,
        clearTable_of_lt (mapLevel2_lt v), hnone]
      rfl
    · rw [Function.update_of_ne h1]
      cases ht : vas.mappings (mapLevel1 v) with
      | none => rfl
      | some table =>
        have hlt := hwf.table_lt (by omega) ht
        rw [Option.bind_some, Option.bind_some, Function.update_of_ne (by omega)]

theorem wellFormed_addTable (hwf : vas.WellFormed)
    (hnone : vas.mappings (mapLevel1 virt) = none) : (vas.addTable virt).WellFormed where
  table_lt := by
    intro i table hi h
    simp only [addTable] at h ⊢
    by_cases hv : i = mapLevel1 virt
    · rw [hv, Function.update_self, Option.some.injEq] at h
      omega
    · rw [Function.update_of_ne hv] at h
      have := hwf.table_lt hi h
      omega
  table_inj := by
    intro i j table hi hj h h'
    simp only [addTable] at h h'
    -- the new table is no old one
    by_cases hiv : i = mapLevel1 virt <;> by_cases hjv : j = mapLevel1 virt
    · exact hiv.trans hjv.symm
    · rw [hiv, Function.update_self, Option.some.injEq] at h
      rw [Function.update_of_ne hjv] at h'
      have := hwf.table_lt hj h'
      omega
    · rw [hjv, Function.update_self, Option.some.injEq] at h'
      rw [Function.update_of_ne hiv] at h
      have := hwf.table_lt hi h
      omega
    · rw [Function.update_of_ne hiv] at h
      rw [Function.update_of_ne hjv] at h'
      exact hwf.table_inj hi hj h h'
  slot_lt := by
    intro v slot h
    rw [findSlot_addTable hwf hnone] at h
    exact Nat.lt_succ_of_lt (hwf.slot_lt h)
  slot_inj := by
    intro v w slot slot' hv hw h
    rw [findSlot_addTable hwf hnone] at hv hw
    exact hwf.slot_inj hv hw h

/-- The new table has the slots of its pages, and all others are as before. -/
theorem findSlot_addTable2 (hwf : vas.WellFormed) (hlow : mapLevel1 virt < mappingsPerLevel)
    {table : Nat} (ht : vas.mappings (mapLevel1 virt) = some table) (v : Nat) :
    (vas.addTable2 table virt).findSlot v =
      if mapLevel1 v = mapLevel1 virt ∧ mapLevel2 v = mapLevel2 virt then
        some ⟨vas.calls, mapLevel3 v⟩
      else vas.findSlot v := by
  by_cases h1 : mapLevel1 v = mapLevel1 virt
  · have hhigh : ¬ mapLevel1 v ≥ mappingsPerLevel := by omega
    rw [findSlot_of_low hhigh, findSlot_of_low hhigh, h1, addTable2]
    simp only [ht, Option.bind_some, Function.update_self, true_and]
    by_cases h2 : mapLevel2 v = mapLevel2 virt
    · rw [h2, Function.update_self, if_pos rfl]
      rfl
    · rw [Function.update_of_ne h2, if_neg h2]
  · rw [if_neg fun h => h1 h.1]
    unfold findSlot addTable2
    split
    · rfl
    · simp only
      cases hv : vas.mappings (mapLevel1 v) with
      | none => rfl
      | some other =>
        have hne : other ≠ table := by
          rintro rfl
          exact h1 (hwf.table_inj (by omega) hlow hv ht)
        rw [Option.bind_some, Option.bind_some, Function.update_of_ne hne]

theorem wellFormed_addTable2 (hwf : vas.WellFormed) (hlow : mapLevel1 virt < mappingsPerLevel)
    {table : Nat} (ht : vas.mappings (mapLevel1 virt) = some table) :
    (vas.addTable2 table virt).WellFormed where
  table_lt := fun hi h => Nat.lt_succ_of_lt (hwf.table_lt hi h)
  table_inj := hwf.table_inj
  slot_lt := by
    intro v slot h
    rw [findSlot_addTable2 hwf hlow ht] at h
    split at h
    · obtain rfl := Option.some.inj h
      exact Nat.lt_succ_self _
    · exact Nat.lt_succ_of_lt (hwf.slot_lt h)
  slot_inj := by
    intro v w slot slot' hv hw h
    rw [findSlot_addTable2 hwf hlow ht] at hv hw
    -- the new table is no old one
    split at hv <;> split at hw
    next hv1 hw1 => exact ⟨hv1.1.trans hw1.1.symm, hv1.2.trans hw1.2.symm⟩
    next hv1 hw1 =>
      obtain rfl := Option.some.inj hv
      have := hwf.slot_lt hw
      simp only at h
      omega
    next hv1 hw1 =>
      obtain rfl := Option.some.inj hw
      have := hwf.slot_lt hv
      simp only at h
      omega
    next hv1 hw1 => exact hwf.slot_inj hv hw h

/-! ## What a call leaves -/

/-- What holds after a call of `GetVirtualPageSlot` that returned `out`. -/
structure Served (vas : Vas α) (virt : Nat) (out : Option Slot) (vas' : Vas α) : Prop where
  wf : vas'.WellFormed
  kept : ∀ {v slot}, vas.findSlot v = some slot → vas'.findSlot v = some slot
  lookup_eq : ∀ v, vas'.lookup v = vas.lookup v
  found : ∀ {slot}, out = some slot → vas'.findSlot virt = some slot

theorem served_self (hwf : vas.WellFormed) {out : Option Slot}
    (h : ∀ {slot}, out = some slot → vas.findSlot virt = some slot) : Served vas virt out vas :=
  ⟨hwf, fun h => h, fun _ => rfl, h⟩

theorem served_noMemory (hwf : vas.WellFormed) : Served vas virt none vas.noMemory where
  wf := ⟨fun hi h => Nat.lt_succ_of_lt (hwf.table_lt hi h), hwf.table_inj,
    fun h => Nat.lt_succ_of_lt (hwf.slot_lt h), hwf.slot_inj⟩
  kept := fun h => h
  lookup_eq := fun _ => rfl
  found := nofun

theorem Served.trans {vas' vas'' : Vas α} {out out' : Option Slot} (h : Served vas virt out vas')
    (h' : Served vas' virt out' vas'') : Served vas virt out' vas'' :=
  ⟨h'.wf, fun hv => h'.kept (h.kept hv), fun v => (h'.lookup_eq v).trans (h.lookup_eq v), h'.found⟩

theorem served_addTable (hwf : vas.WellFormed) (hnone : vas.mappings (mapLevel1 virt) = none) :
    Served vas virt none (vas.addTable virt) where
  wf := wellFormed_addTable hwf hnone
  kept := by
    intro v slot h
    rw [findSlot_addTable hwf hnone, h]
  lookup_eq := by
    intro v
    rw [lookup, lookup, findSlot_addTable hwf hnone]
    rfl
  found := nofun

theorem served_addTable2 (hwf : vas.WellFormed) (hlow : mapLevel1 virt < mappingsPerLevel)
    {table : Nat} (ht : vas.mappings (mapLevel1 virt) = some table)
    (ht2 : vas.tables table (mapLevel2 virt) = none) :
    Served vas virt (some ⟨vas.calls, mapLevel3 virt⟩) (vas.addTable2 table virt) := by
  -- before the call no page of the new table had a slot
  have hnone {v : Nat} (h : mapLevel1 v = mapLevel1 virt ∧ mapLevel2 v = mapLevel2 virt) :
      vas.findSlot v = none := by
    rw [findSlot_of_low (by omega), h.1, h.2, ht, Option.bind_some, ht2]
    rfl
  refine ⟨wellFormed_addTable2 hwf hlow ht, ?_, ?_, ?_⟩
  · intro v slot h
    rw [findSlot_addTable2 hwf hlow ht, if_neg, h]
    intro hv
    cases (hnone hv).symm.trans h
  · intro v
    rw [lookup, lookup, findSlot_addTable2 hwf hlow ht]
    split
    next hv =>
      rw [hnone hv, Option.bind_some, read, addTable2]
      simp only [Function.update_self]
      exact clearTable_of_lt (mapLevel3_lt v)
    next hv =>
      cases hs : vas.findSlot v with
      | none => rfl
      | some slot =>
        have hlt := hwf.slot_lt hs
        rw [Option.bind_some, Option.bind_some, read, read, addTable2]
        simp only
        rw [Function.update_of_ne (by omega)]
  · intro slot h
    obtain rfl := Option.some.inj h
    rw [findSlot_addTable2 hwf hlow ht, if_pos ⟨rfl, rfl⟩]

theorem served_slotOfTable (heap : Nat → Bool) (create : Bool) (hwf : vas.WellFormed)
    (hlow : mapLevel1 virt < mappingsPerLevel) {table : Nat}
    (ht : vas.mappings (mapLevel1 virt) = some table) :
    Served vas virt (vas.slotOfTable heap table virt create).1
      (vas.slotOfTable heap table virt create).2 := by
  unfold slotOfTable
  split
  next table2 ht2 =>
    refine served_self hwf fun h => ?_
    obtain rfl := Option.some.inj h
    exact findSlot_eq_some.mpr ⟨hlow, table, ht, ht2, rfl⟩
  next ht2 =>
    split
    · exact served_self hwf nofun
    · split
      · exact served_addTable2 hwf hlow ht ht2
      · exact served_noMemory hwf

theorem served_getVirtualPageSlot (heap : Nat → Bool) (virt : Nat) (create : Bool)
    (hwf : vas.WellFormed) :
    Served vas virt (vas.getVirtualPageSlot heap virt create).1
      (vas.getVirtualPageSlot heap virt create).2 := by
  unfold getVirtualPageSlot
  split
  next => exact served_self hwf nofun
  next hhigh =>
    have hlow : mapLevel1 virt < mappingsPerLevel := by omega
    split
    next table ht => exact served_slotOfTable heap create hwf hlow ht
    next hnone =>
      split
      · exact served_self hwf nofun
      · split
        · -- the first level stays extended if the second allocation fails
          have hadd : Served vas virt none (vas.addTable virt) := served_addTable hwf hnone
          exact hadd.trans (served_slotOfTable heap create hadd.wf hlow (Function.update_self ..))
        · exact served_noMemory hwf

/-- A slot that is there is returned by every call, and nothing is allocated. -/
theorem getVirtualPageSlot_of_findSlot (heap : Nat → Bool) (create : Bool) {slot : Slot}
    (h : vas.findSlot virt = some slot) :
    vas.getVirtualPageSlot heap virt create = (some slot, vas) := by
  obtain ⟨hlow, table, ht, ht2, hindex⟩ := findSlot_eq_some.mp h
  rw [getVirtualPageSlot, if_neg (by omega), ht]
  simp only [slotOfTable, ht2, ← hindex]

/-- A store changes what one page has in its slot. -/
theorem lookup_store (hwf : vas.WellFormed) {slot : Slot} (h : vas.findSlot virt = some slot)
    (vp : Option α) (v : Nat) :
    (vas.store slot vp).lookup v = if v / 4096 = virt / 4096 then vp else vas.lookup v := by
  have hfind : (vas.store slot vp).findSlot v = vas.findSlot v := rfl
  rw [lookup, lookup, hfind]
  split
  next hv =>
    rw [vas.findSlot_congr hv, h, Option.bind_some, read, store]
    simp only [Function.update_self]
  next hv =>
    cases hs : vas.findSlot v with
    | none => rfl
    | some other =>
      have hne : other ≠ slot := fun heq => hv ((hwf.findSlot_inj hs h).mp heq)
      rw [Option.bind_some, Option.bind_some, read, read, store]
      simp only
      by_cases ht : other.table2 = slot.table2
      · have hindex : other.index ≠ slot.index := by
          intro hi
          cases other
          cases slot
          simp_all
        rw [ht, Function.update_self, Function.update_of_ne hindex]
      · rw [Function.update_of_ne ht]

/-! ## The tables without their memory -/

/-- What the tables hold, as `Mappings` has it -/
def toMappings (vas : Vas α) : Mappings α :=
  fun i => (vas.mappings i).map fun table j =>
    (vas.tables table j).map fun table2 k => vas.tables2 table2 k

theorem pageFromVirt_toMappings (vas : Vas α) (virt : Nat) :
    pageFromVirt vas.toMappings virt = vas.lookup virt := by
  rw [pageFromVirt_eq, lookup, findSlot, toMappings]
  split
  next h =>
    rw [if_pos (show mapLevel1 virt ≥ mappingsPerLevel from h)]
    rfl
  next h =>
    rw [if_neg (show ¬ mapLevel1 virt ≥ mappingsPerLevel from h)]
    cases vas.mappings (mapLevel1 virt) with
    | none => rfl
    | some table =>
      simp only [Option.map_some, Option.bind_some]
      cases vas.tables table (mapLevel2 virt) <;> rfl

/-- `createSlot` calls the allocator as often, has a slot when the code has one, and leaves what the
code leaves to be found. -/
theorem createSlot_toMappings (heap : Nat → Bool) (virt : Nat) (hwf : vas.WellFormed) :
    (createSlot heap vas.calls vas.toMappings virt).2 =
        ((vas.getVirtualPageSlot heap virt true).2.calls,
          (vas.getVirtualPageSlot heap virt true).1.isSome) ∧
      ∀ v, pageFromVirt (createSlot heap vas.calls vas.toMappings virt).1 v =
        pageFromVirt (vas.getVirtualPageSlot heap virt true).2.toMappings v := by
  refine ⟨?_, fun v => ?_⟩
  · unfold createSlot getVirtualPageSlot
    by_cases hhigh : 128 ≤ mapLevel1 virt
    · rw [if_pos hhigh, if_pos (show mapLevel1 virt ≥ mappingsPerLevel from hhigh)]
      rfl
    · rw [if_neg hhigh, if_neg (show ¬ mapLevel1 virt ≥ mappingsPerLevel from hhigh)]
      cases ht : vas.mappings (mapLevel1 virt) with
      | some table =>
        have hm : vas.toMappings (mapLevel1 virt) = some fun j =>
            (vas.tables table j).map fun table2 k => vas.tables2 table2 k := by
          rw [toMappings, ht]
          rfl
        simp only [hm, Option.bind_some, slotOfTable]
        cases vas.tables table (mapLevel2 virt) with
        | some table2 => rfl
        | none => cases heap vas.calls <;> rfl
      | none =>
        have hm : vas.toMappings (mapLevel1 virt) = none := by
          rw [toMappings, ht]
          rfl
        have hclear : (vas.addTable virt).tables vas.calls (mapLevel2 virt) = none := by
          simp only [addTable, Function.update_self]
          exact clearTable_of_lt (mapLevel2_lt virt)
        simp only [hm, Nolrem.Vmm.addTable, Function.update_self, Option.bind_some, slotOfTable,
          hclear]
        cases hheap : heap vas.calls with
        | false => rfl
        | true =>
          cases hheap' : heap (vas.calls + 1) <;> simp [addTable, addTable2, noMemory, hheap']
  · rw [(createSlot_spec ..).1, pageFromVirt_toMappings, pageFromVirt_toMappings,
      (served_getVirtualPageSlot heap virt true hwf).lookup_eq]

end

/-- The second table is not there when the heap is used up. -/
theorem createSlot_toMappings_empty :
    let vas : Vas Nat := new ⟨fun _ => none, fun _ _ => none, fun _ _ => none, 0⟩
    let heap := fun n => decide (n < 1)
    (createSlot heap vas.calls vas.toMappings 4096).2 =
        ((vas.getVirtualPageSlot heap 4096 true).2.calls,
          (vas.getVirtualPageSlot heap 4096 true).1.isSome) ∧
      ∀ v, pageFromVirt (createSlot heap vas.calls vas.toMappings 4096).1 v =
        pageFromVirt (vas.getVirtualPageSlot heap 4096 true).2.toMappings v :=
  createSlot_toMappings _ 4096 (wellFormed_new _)

end Vas

/-! ## Runs -/

/-- An address space in use: the slots that calls returned, each with the address of the call, and
what was last stored for each page. -/
structure SlotRun (α : Type) where
  vas : Vas α
  returned : List (Nat × Slot)
  stored : Nat → Option α

namespace SlotRun

/-- Nothing was returned or stored yet. -/
def start (vas : Vas α) : SlotRun α := ⟨Vas.new vas, [], fun _ => none⟩

/-- What a run does: it calls `GetVirtualPageSlot`, or stores through a slot it got. -/
inductive Step (heap : Nat → Bool) : SlotRun α → SlotRun α → Prop
  | get (r : SlotRun α) (virt : Nat) (create : Bool) :
    Step heap r
      { r with
        vas := (r.vas.getVirtualPageSlot heap virt create).2
        returned := match (r.vas.getVirtualPageSlot heap virt create).1 with
          | none => r.returned
          | some slot => (virt, slot) :: r.returned }
  | store (r : SlotRun α) (virt : Nat) (slot : Slot) (vp : Option α)
    (h : (virt, slot) ∈ r.returned) :
    Step heap r
      { r with
        vas := r.vas.store slot vp
        stored := Function.update r.stored (virt / 4096) vp }

/-- Each slot that was returned is still that of its page, and holds what was stored for it. -/
structure Faithful (r : SlotRun α) : Prop where
  wf : r.vas.WellFormed
  found : ∀ {virt slot}, (virt, slot) ∈ r.returned → r.vas.findSlot virt = some slot
  lookup_eq : ∀ v, r.vas.lookup v = r.stored (v / 4096)

theorem faithful_start (vas : Vas α) : (start vas).Faithful where
  wf := Vas.wellFormed_new vas
  found := by
    intro virt slot h
    cases h
  lookup_eq := by
    intro v
    rw [Vas.lookup]
    cases hs : (start vas).vas.findSlot v with
    | none => rfl
    | some slot =>
      obtain ⟨hlow, table, ht, -⟩ := Vas.findSlot_eq_some.mp hs
      have hclear : clearTable vas.mappings (mapLevel1 v) = none := Vas.clearTable_of_lt hlow
      cases hclear.symm.trans ht

theorem Faithful.step {heap : Nat → Bool} {r r' : SlotRun α} (h : r.Faithful)
    (hstep : Step heap r r') : r'.Faithful := by
  cases hstep with
  | get virt create =>
    have hserved := Vas.served_getVirtualPageSlot heap virt create h.wf
    refine ⟨hserved.wf, ?_, fun v => (hserved.lookup_eq v).trans (h.lookup_eq v)⟩
    intro v slot hmem
    simp only at hmem
    split at hmem
    next => exact hserved.kept (h.found hmem)
    next new hnew =>
      obtain hmem | hmem := List.mem_cons.mp hmem
      · obtain ⟨rfl, rfl⟩ := Prod.mk.inj hmem
        exact hserved.found hnew
      · exact hserved.kept (h.found hmem)
  | store virt slot vp hmem =>
    have hwf : (r.vas.store slot vp).WellFormed :=
      ⟨h.wf.table_lt, h.wf.table_inj, h.wf.slot_lt, h.wf.slot_inj⟩
    refine ⟨hwf, h.found, fun v => ?_⟩
    simp only
    rw [Vas.lookup_store h.wf (h.found hmem), Function.update_apply, h.lookup_eq]

theorem faithful_of_reaches {heap : Nat → Bool} {vas : Vas α} {r : SlotRun α}
    (h : Reaches (Step heap) (start vas) r) : r.Faithful :=
  h.invariant (faithful_start vas) fun _ _ => Faithful.step

/-- In every state of a run the slots that were returned are those of their pages, and stay so; a
call that does not create changes nothing; a lookup finds what was last stored for the page, also
after a call that returned `NULL`; and no address out of range has a slot. -/
theorem getVirtualPageSlot_faithful (heap : Nat → Bool) (vas : Vas α) (r : SlotRun α)
    (h : Reaches (Step heap) (start vas) r) :
    (∀ v slot w slot', (v, slot) ∈ r.returned → (w, slot') ∈ r.returned →
      (slot = slot' ↔ v / 4096 = w / 4096)) ∧
    (∀ v slot w create, (v, slot) ∈ r.returned → w / 4096 = v / 4096 →
      r.vas.getVirtualPageSlot heap w create = (some slot, r.vas)) ∧
    (∀ v, (r.vas.getVirtualPageSlot heap v false).2 = r.vas) ∧
    (∀ v, r.vas.getVirtualPageFromVirt heap v = r.stored (v / 4096)) ∧
    (∀ v create, (r.vas.getVirtualPageSlot heap v create).1 = none →
      let after := (r.vas.getVirtualPageSlot heap v create).2
      ∀ w, after.getVirtualPageFromVirt heap w = r.vas.getVirtualPageFromVirt heap w ∧
        ∀ r', Reaches (Step heap) { r with vas := after } r' →
          r'.vas.getVirtualPageFromVirt heap w = r'.stored (w / 4096)) ∧
    (∀ v create, mappingsPerLevel ≤ mapLevel1 v →
      r.vas.getVirtualPageSlot heap v create = (none, r.vas)) := by
  have hf := faithful_of_reaches h
  refine ⟨?_, ?_, ?_, ?_, ?_, ?_⟩
  · intro v slot w slot' hv hw
    exact hf.wf.findSlot_inj (hf.found hv) (hf.found hw)
  · intro v slot w create hv hw
    have hfound := hf.found hv
    rw [← r.vas.findSlot_congr hw] at hfound
    exact Vas.getVirtualPageSlot_of_findSlot heap create hfound
  · intro v
    rw [Vas.getVirtualPageSlot_false]
  · intro v
    rw [Vas.getVirtualPageFromVirt_eq, hf.lookup_eq]
  · intro v create hnull after w
    have hserved := Vas.served_getVirtualPageSlot heap v create hf.wf
    have hnext := hf.step (@Step.get α heap r v create)
    simp only [hnull] at hnext
    refine ⟨?_, fun r' h' => ?_⟩
    · rw [Vas.getVirtualPageFromVirt_eq, Vas.getVirtualPageFromVirt_eq, hserved.lookup_eq]
    · rw [Vas.getVirtualPageFromVirt_eq]
      exact (Reaches.invariant h' hnext fun _ _ => Faithful.step).lookup_eq w
  · intro v create hv
    exact if_pos hv

theorem getVirtualPageSlot_faithful_stored :
    let heap := fun _ : Nat => true
    ∃ r : SlotRun Nat, (4096, ⟨1, 1⟩) ∈ r.returned ∧
      r.vas.getVirtualPageFromVirt heap 4100 = some 7 := by
  intro heap
  let vas : Vas Nat := ⟨fun _ => none, fun _ _ => none, fun _ _ => none, 0⟩
  let created : SlotRun Nat :=
    ⟨((Vas.new vas).getVirtualPageSlot heap 4096 true).2, [(4096, ⟨1, 1⟩)], fun _ => none⟩
  have hget : Step heap (start vas) created := Step.get (start vas) 4096 true
  have hstore : Step heap created _ :=
    Step.store created 4096 ⟨1, 1⟩ (some 7) (List.mem_singleton.mpr rfl)
  have hrun := (Relation.ReflTransGen.single hget).tail hstore
  obtain ⟨-, -, -, hlookup, -⟩ := getVirtualPageSlot_faithful heap vas _ hrun
  exact ⟨_, List.mem_singleton.mpr rfl, hlookup 4100⟩

end SlotRun

end Nolrem.Vmm
