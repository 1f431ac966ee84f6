import Mathlib.Logic.Function.Basic
import Mathlib.Tactic.Common
import Nolrem.Word

/-!
# Mapping tables

The three levels of tables from which `GetVirtualPageSlot` of `kernel/mem/vmm.c` finds the slot
of a page. A table that was not allocated is `none`, and so is an empty slot.
-/

namespace Nolrem.Vmm

variable {α : Type}

/-- `struct virt_page****` -/
abbrev Mappings (α : Type) := Nat → Option (Nat → Option (Nat → Option α))

/-- `level_1` -/
def mapLevel1 (virt : Nat) : Nat := virt / 4096 / 128 / 128

/-- `level_2` -/
def mapLevel2 (virt : Nat) : Nat := virt / 4096 / 128 % 128

/-- `level_3` -/
def mapLevel3 (virt : Nat) : Nat := virt / 4096 % 128

/-- `GetVirtualPageSlot` without `create`: what is in the slot, when there is one. -/
def slotOf (m : Mappings α) (virt : Nat) : Option (Option α) :=
  if 128 ≤ mapLevel1 virt then none
  else
    match m (mapLevel1 virt) with
    | none => none
    | some table =>
      match table (mapLevel2 virt) with
      | none => none
      | some table2 => some (table2 (mapLevel3 virt))

/-- `GetVirtualPageFromVirt` -/
def pageFromVirt (m : Mappings α) (virt : Nat) : Option α := (slotOf m virt).join

/-- A table of the second level, with nothing in it. -/
def addTable (m : Mappings α) (virt : Nat) : Mappings α :=
  Function.update m (mapLevel1 virt) (some fun _ => none)

/-- A table of the third level, with nothing in it. -/
def addTable2 (m : Mappings α) (virt : Nat) : Mappings α :=
  match m (mapLevel1 virt) with
  | none => m
  | some table => Function.update m (mapLevel1 virt)
      (some (Function.update table (mapLevel2 virt) (some fun _ => none)))

/--
`GetVirtualPageSlot` with `create`, where `AllocVmmHeap` succeeds or not: the tables, how often
`AllocVmmHeap` was called, and whether there is a slot.
-/
def createSlot (heap : Nat → Bool) (calls : Nat) (m : Mappings α) (virt : Nat) :
    Mappings α × Nat × Bool :=
  if 128 ≤ mapLevel1 virt then (m, calls, false)
  else
    let fromTable := fun (m : Mappings α) (calls : Nat) =>
      match (m (mapLevel1 virt)).bind fun table => table (mapLevel2 virt) with
      | some _ => (m, calls, true)
      | none => if heap calls then (addTable2 m virt, calls + 1, true) else (m, calls + 1, false)
    match m (mapLevel1 virt) with
    | some _ => fromTable m calls
    | none =>
      if heap calls then fromTable (addTable m virt) (calls + 1) else (m, calls + 1, false)

/-- `*slot = vp` -/
def setSlot (m : Mappings α) (virt : Nat) (vp : Option α) : Mappings α :=
  match m (mapLevel1 virt) with
  | none => m
  | some table =>
    match table (mapLevel2 virt) with
    | none => m
    | some table2 => Function.update m (mapLevel1 virt) (some (Function.update table
        (mapLevel2 virt) (some (Function.update table2 (mapLevel3 virt) vp))))

section Tables

variable {m : Mappings α} {virt v : Nat} {vp : Option α}

/-- The three indices are the number of the page. -/
theorem level_eq_iff : mapLevel1 v = mapLevel1 virt ∧ mapLevel2 v = mapLevel2 virt ∧
    mapLevel3 v = mapLevel3 virt ↔ v / 4096 = virt / 4096 := by
  unfold mapLevel1 mapLevel2 mapLevel3
  omega

theorem pageFromVirt_eq (m : Mappings α) (virt : Nat) : pageFromVirt m virt =
    if 128 ≤ mapLevel1 virt then none
    else (m (mapLevel1 virt)).bind fun table => (table (mapLevel2 virt)).bind fun table2 =>
      table2 (mapLevel3 virt) := by
  unfold pageFromVirt slotOf
  split
  · rfl
  · cases hm : m (mapLevel1 virt) with
    | none => rfl
    | some table => cases ht : table (mapLevel2 virt) <;> simp [ht]

/-- An empty table changes no lookup. -/
theorem pageFromVirt_addTable (h : m (mapLevel1 virt) = none) :
    pageFromVirt (addTable m virt) v = pageFromVirt m v := by
  rw [pageFromVirt_eq, pageFromVirt_eq]
  unfold addTable
  by_cases hv : mapLevel1 v = mapLevel1 virt
  · rw [hv, Function.update_self, h]
    rfl
  · rw [Function.update_of_ne hv]

theorem pageFromVirt_addTable2
    (h : ((m (mapLevel1 virt)).bind fun table => table (mapLevel2 virt)) = none) :
    pageFromVirt (addTable2 m virt) v = pageFromVirt m v := by
  cases hm : m (mapLevel1 virt) with
  | none => simp [addTable2, hm]
  | some table =>
    have hadd : addTable2 m virt = Function.update m (mapLevel1 virt)
        (some (Function.update table (mapLevel2 virt) (some fun _ => none))) := by
      simp [addTable2, hm]
    rw [hadd, pageFromVirt_eq, pageFromVirt_eq]
    rw [hm, Option.bind_some] at h
    by_cases hv : mapLevel1 v = mapLevel1 virt
    · rw [hv, Function.update_self, hm, Option.bind_some, Option.bind_some]
      by_cases hv2 : mapLevel2 v = mapLevel2 virt
      · rw [hv2, Function.update_self, h]
        rfl
      · rw [Function.update_of_ne hv2]
    · rw [Function.update_of_ne hv]

/-- Making the slot changes no lookup; when it succeeds there is a slot. -/
theorem createSlot_spec (heap : Nat → Bool) (calls : Nat) (m : Mappings α) (virt : Nat) :
    (∀ v, pageFromVirt (createSlot heap calls m virt).1 v = pageFromVirt m v) ∧
      ((createSlot heap calls m virt).2.2 = true →
        (slotOf (createSlot heap calls m virt).1 virt).isSome = true) := by
  unfold createSlot
  by_cases hhigh : 128 ≤ mapLevel1 virt
  · rw [if_pos hhigh]
    exact ⟨fun _ => rfl, nofun⟩
  · rw [if_neg hhigh]
    cases hm : m (mapLevel1 virt) with
    | some table =>
      simp only
      cases ht : table (mapLevel2 virt) with
      | some table2 =>
        simp only [hm, Option.bind_some, ht]
        exact ⟨fun _ => trivial, fun _ => by simp [slotOf, hhigh, hm, ht]⟩
      | none =>
        have hbind : ((m (mapLevel1 virt)).bind fun table => table (mapLevel2 virt)) = none := by
          rw [hm, Option.bind_some, ht]
        simp only [hm, Option.bind_some, ht]
        split
        · refine ⟨fun v => pageFromVirt_addTable2 hbind, fun _ => ?_⟩
          simp [slotOf, hhigh, addTable2, hm]
        · exact ⟨fun _ => rfl, nofun⟩
    | none =>
      simp only
      split
      · have hnew : addTable m virt (mapLevel1 virt) = some fun _ => none :=
          Function.update_self ..
        have hbind : ((addTable m virt (mapLevel1 virt)).bind fun table =>
            table (mapLevel2 virt)) = none := by
          rw [hnew]
          rfl
        simp only [hnew, Option.bind_some]
        split
        · refine ⟨fun v => (pageFromVirt_addTable2 hbind).trans (pageFromVirt_addTable hm),
            fun _ => ?_⟩
          simp [slotOf, hhigh, addTable2, hnew]
        · exact ⟨fun v => pageFromVirt_addTable hm, nofun⟩
      · exact ⟨fun _ => rfl, nofun⟩

/-- Writing a slot changes the lookup of one page. -/
theorem pageFromVirt_setSlot (h : (slotOf m virt).isSome = true) :
    pageFromVirt (setSlot m virt vp) v =
      if v / 4096 = virt / 4096 then vp else pageFromVirt m v := by
  unfold slotOf at h
  split at h
  · cases h
  · next hlow =>
    cases hm : m (mapLevel1 virt) with
    | none => simp [hm] at h
    | some table =>
      cases ht : table (mapLevel2 virt) with
      | none => simp [hm, ht] at h
      | some table2 =>
        have hset : setSlot m virt vp = Function.update m (mapLevel1 virt) (some
            (Function.update table (mapLevel2 virt)
              (some (Function.update table2 (mapLevel3 virt) vp)))) := by
          simp [setSlot, hm, ht]
        rw [hset, pageFromVirt_eq, pageFromVirt_eq]
        simp only [← level_eq_iff]
        by_cases h1 : mapLevel1 v = mapLevel1 virt
        · rw [h1, Function.update_self, if_neg hlow, Option.bind_some, hm, Option.bind_some,
            if_neg hlow]
          by_cases h2 : mapLevel2 v = mapLevel2 virt
          · rw [h2, Function.update_self, Option.bind_some, ht, Option.bind_some]
            by_cases h3 : mapLevel3 v = mapLevel3 virt
            · rw [h3, Function.update_self, if_pos ⟨rfl, rfl, rfl⟩]
            · rw [Function.update_of_ne h3, if_neg fun hall => h3 hall.2.2]
          · rw [Function.update_of_ne h2, if_neg fun hall => h2 hall.2.1]
        · rw [Function.update_of_ne h1]
          exact (if_neg fun hall => h1 hall.1).symm

end Tables

end Nolrem.Vmm
