import Mathlib.Algebra.Group.Nat.Defs
import Mathlib.Data.List.GetD
import Nolrem.Lib.BubbleSort
import Nolrem.Lib.CInt
import Nolrem.Lib.Stored

/-!
# The dynamic array

`kernel/CLIPDRAW/dynamic_array.c`: elements of one size, side by side in a block of the heap that is
doubled when it is full. Capacity and length are `uint16_t`. No allocation fails.
-/

namespace Nolrem.Cd

open Nolrem.Lib

/-! ## The heap -/

/-- A block of the heap: how many bytes it has, and the bytes. -/
structure HeapBlock where
  size : Nat
  bytes : Nat → Nat

/-- How many bytes the block for a request has, and what is in them at first. -/
structure Allocator where
  payload : Nat → Nat
  le_payload : ∀ n, n ≤ payload n
  stale : Nat → Nat → Nat

/-- `KeAllocHeap` -/
def Allocator.allocHeap (e : Allocator) (bytes : Nat) : Option HeapBlock :=
  if bytes = 0 then none else some ⟨e.payload bytes, e.stale bytes⟩

/-- `KeReallocHeap`. A block that is large enough stays as it is. -/
def Allocator.reallocHeap (e : Allocator) (ptr : Option HeapBlock) (newSize : Nat) :
    Option HeapBlock :=
  match ptr with
  | none => e.allocHeap newSize
  | some b =>
    if newSize = 0 then none
    else if newSize ≤ b.size then some b
    else some ⟨e.payload newSize, fun i => if i < b.size then b.bytes i else e.stale newSize i⟩

/-! ## The array -/

/-- `struct dynamic_array` -/
structure DynamicArray where
  array : Option HeapBlock
  allocated : Nat
  used : Nat
  dataSize : Nat

/-- `CreateDynamicArray`, `none` if the size of the block is more than an `int` can hold. -/
def createDynamicArray (e : Allocator) (dataSize initialAllocation : Int) : Option DynamicArray :=
  let initialAllocation := if initialAllocation < 1 then 1 else initialAllocation
  (cInt (dataSize * initialAllocation)).map fun bytes =>
    { array := e.allocHeap bytes.toNat
      allocated := (initialAllocation % 65536).toNat
      used := 0
      dataSize := (dataSize % 256).toNat }

namespace DynamicArray

variable (da : DynamicArray)

/-- A byte of the block. -/
def byte (i : Nat) : Nat := (da.array.map fun b => b.bytes i).getD 0

/-- Element `j`. -/
def elem (j : Nat) : List Nat := (List.range da.dataSize).map fun k => da.byte (da.dataSize * j + k)

/-- All elements. -/
def elems : List (List Nat) := (List.range da.used).map da.elem

/-- `memcpy` to the place of element `j` -/
def setElem (j : Nat) (data : List Nat) : DynamicArray :=
  { da with
    array := da.array.map fun b => { b with bytes := store b.bytes (da.dataSize * j) data } }

/-- A round of the loop of `InsertDynamicArray`. -/
def double (e : Allocator) : DynamicArray :=
  let allocated := da.allocated * 2 % 65536
  { da with
    allocated := allocated
    array := e.reallocHeap da.array (allocated * da.dataSize) }

end DynamicArray

/-- The loop of `InsertDynamicArray`, `none` if it has not ended after `fuel` rounds. -/
def makeRoom (e : Allocator) : Nat → DynamicArray → Option DynamicArray
  | 0, _ => none
  | fuel + 1, da => if da.used ≥ da.allocated then makeRoom e fuel (da.double e) else some da

/-- `InsertDynamicArray` -/
def insertDynamicArray (e : Allocator) (fuel : Nat) (da : DynamicArray) (data : List Nat) :
    Option DynamicArray :=
  (makeRoom e fuel da).map fun da =>
    { da.setElem da.used data with used := (da.used + 1) % 65536 }

/-- The body of the loops of `SortDynamicArray`. -/
def sortStep (comparator : List Nat → List Nat → Int) (da : DynamicArray) (j : Nat) :
    DynamicArray :=
  if 0 < comparator (da.elem j) (da.elem (j + 1)) then
    let temp := da.elem j
    (da.setElem j (da.elem (j + 1))).setElem (j + 1) temp
  else da

/-- `SortDynamicArray` -/
def sortDynamicArray (comparator : List Nat → List Nat → Int) (da : DynamicArray) : DynamicArray :=
  if da.used ≤ 1 then da
  else
    (List.range (da.used - 1)).foldl
      (fun da i => (List.range (da.used - i - 1)).foldl (sortStep comparator) da) da

/-- A call for each of the elements, in order. -/
def insertAll (e : Allocator) (fuel : Nat) (da : DynamicArray) (data : List (List Nat)) :
    Option DynamicArray :=
  data.foldlM (insertDynamicArray e fuel) da

/-! ## What an array holds -/

/-- The elements of `da` are `data`, which lie in the block `b`. -/
structure Rep (da : DynamicArray) (data : List (List Nat)) (b : HeapBlock) : Prop where
  array : da.array = some b
  used : da.used = data.length
  pos : 0 < da.dataSize
  lengths : ∀ d ∈ data, d.length = da.dataSize
  usedIn : da.used * da.dataSize ≤ b.size
  allocatedIn : da.allocated * da.dataSize ≤ b.size
  stored : Stored b.bytes 0 data.flatten

variable {e : Allocator} {da da' : DynamicArray} {data : List (List Nat)} {b : HeapBlock}

theorem DynamicArray.byte_of_array (h : da.array = some b) (i : Nat) : da.byte i = b.bytes i := by
  unfold DynamicArray.byte
  rw [h]
  rfl

theorem DynamicArray.elem_of_array (h : da.array = some b) (j : Nat) :
    da.elem j = (List.range da.dataSize).map fun k => b.bytes (da.dataSize * j + k) := by
  unfold DynamicArray.elem
  simp only [da.byte_of_array h]

@[simp] theorem DynamicArray.length_elem (da : DynamicArray) (j : Nat) :
    (da.elem j).length = da.dataSize := by
  rw [DynamicArray.elem, List.length_map, List.length_range]

@[simp] theorem DynamicArray.length_elems (da : DynamicArray) : da.elems.length = da.used := by
  rw [DynamicArray.elems, List.length_map, List.length_range]

theorem map_elem_of_stored {bytes : Nat → Nat} {dataSize p : Nat}
    (hlen : ∀ d ∈ data, d.length = dataSize) (h : Stored bytes p data.flatten) :
    (List.range data.length).map (fun j =>
      (List.range dataSize).map fun k => bytes (p + (dataSize * j + k))) = data := by
  induction data generalizing p with
  | nil => rfl
  | cons d data ih =>
    obtain ⟨hd, hrest⟩ := List.forall_mem_cons.mp hlen
    rw [List.flatten_cons, stored_append, stored_iff_range, hd] at h
    rw [List.length_cons, List.range_succ_eq_map, List.map_cons, List.map_map, List.cons.injEq]
    refine ⟨?_, (List.map_congr_left fun j _ => ?_).trans (ih hrest h.2)⟩
    · simpa using h.1
    · refine List.map_congr_left fun k _ => congrArg bytes ?_
      rw [Nat.mul_succ]
      omega

theorem Rep.elems (h : Rep da data b) : da.elems = data := by
  have hmap := map_elem_of_stored h.lengths h.stored
  simp only [Nat.zero_add] at hmap
  unfold DynamicArray.elems
  rw [funext (da.elem_of_array h.array), h.used]
  exact hmap

theorem length_flatten_of_lengths {dataSize : Nat} (h : ∀ d ∈ data, d.length = dataSize) :
    data.flatten.length = dataSize * data.length := by
  induction data with
  | nil => rfl
  | cons d data ih =>
    obtain ⟨hd, hrest⟩ := List.forall_mem_cons.mp h
    rw [List.flatten_cons, List.length_append, hd, ih hrest, List.length_cons, Nat.mul_succ,
      Nat.add_comm]

/-! ## Insertion -/

theorem Rep.double (h : Rep da data b) (h0 : (da.double e).allocated ≠ 0) :
    ∃ b', Rep (da.double e) data b' := by
  have hsize : (da.double e).allocated * da.dataSize ≠ 0 :=
    Nat.mul_ne_zero h0 (Nat.ne_of_gt h.pos)
  have harray : (da.double e).array =
      e.reallocHeap (some b) ((da.double e).allocated * da.dataSize) := by
    rw [← h.array]
    rfl
  rw [Allocator.reallocHeap, if_neg hsize] at harray
  split_ifs at harray with hle
  · exact ⟨b, harray, h.used, h.pos, h.lengths, h.usedIn, hle, h.stored⟩
  · have hle' := Nat.le_trans (Nat.le_of_lt (Nat.lt_of_not_le hle))
      (e.le_payload ((da.double e).allocated * da.dataSize))
    refine ⟨_, harray, h.used, h.pos, h.lengths, Nat.le_trans h.usedIn hle',
      e.le_payload _, h.stored.move fun i hi => ?_⟩
    rw [Nat.zero_add]
    refine if_pos (Nat.lt_of_lt_of_le ?_ h.usedIn)
    rwa [length_flatten_of_lengths h.lengths, ← h.used, Nat.mul_comm] at hi

theorem two_pow_step (a k : Nat) : a * 2 % 65536 * 2 ^ k % 65536 = a * 2 ^ (k + 1) % 65536 := by
  rw [Nat.mod_mul_mod, Nat.pow_succ, Nat.mul_comm (2 ^ k) 2, Nat.mul_assoc]

/-- When the loop ends there is room, and the elements are still there. -/
theorem makeRoom_spec {fuel : Nat} (ha : da.allocated < 65536)
    (h : da.allocated ≠ 0 → ∃ b, Rep da data b) (hr : makeRoom e fuel da = some da') :
    (∃ b, Rep da' data b) ∧ da'.used < da'.allocated ∧ da'.allocated < 65536 ∧
      da'.dataSize = da.dataSize ∧ ∃ k, da'.allocated = da.allocated * 2 ^ k % 65536 := by
  induction fuel generalizing da with
  | zero => cases hr
  | succ fuel ih =>
    rw [makeRoom] at hr
    split_ifs at hr with hfull
    · have hlt : (da.double e).allocated < 65536 := Nat.mod_lt _ (by decide)
      have hdouble : (da.double e).allocated ≠ 0 → ∃ b, Rep (da.double e) data b := by
        intro h0
        have hne : da.allocated ≠ 0 := by
          intro hzero
          apply h0
          show da.allocated * 2 % 65536 = 0
          rw [hzero]
        obtain ⟨b, hb⟩ := h hne
        exact hb.double h0
      obtain ⟨hb, hroom, hlt', hds, k, hk⟩ := ih hlt hdouble hr
      refine ⟨hb, hroom, hlt', hds, k + 1, ?_⟩
      rw [hk, ← two_pow_step]
      rfl
    · obtain rfl := Option.some.inj hr
      refine ⟨h (by omega), by omega, ha, rfl, 0, ?_⟩
      rw [Nat.pow_zero, Nat.mul_one, Nat.mod_eq_of_lt ha]

/-- The loop ends, after `k` rounds at most, if the capacity is then large enough. -/
theorem makeRoom_ends {k fuel : Nat} (hf : k < fuel) (ha : da.allocated < 65536)
    (hk : da.used < da.allocated * 2 ^ k % 65536) :
    ∃ da' k', makeRoom e fuel da = some da' ∧ k' ≤ k ∧
      da'.allocated = da.allocated * 2 ^ k' % 65536 := by
  have hself : da.allocated * 2 ^ 0 % 65536 = da.allocated := by
    rw [Nat.pow_zero, Nat.mul_one, Nat.mod_eq_of_lt ha]
  induction k generalizing da fuel with
  | zero =>
    obtain ⟨fuel, rfl⟩ := Nat.exists_eq_succ_of_ne_zero (Nat.ne_of_gt hf)
    rw [hself] at hk
    exact ⟨da, 0, if_neg (Nat.not_le.mpr hk), Nat.le_refl 0, hself.symm⟩
  | succ k ih =>
    obtain ⟨fuel, rfl⟩ := Nat.exists_eq_succ_of_ne_zero (Nat.ne_of_gt (Nat.zero_lt_of_lt hf))
    rw [makeRoom]
    split_ifs with hfull
    · have hlt : (da.double e).allocated < 65536 := Nat.mod_lt _ (by decide)
      rw [← two_pow_step] at hk
      obtain ⟨da', k', hrun, hle, hal⟩ := ih (Nat.lt_of_succ_lt_succ hf) hlt hk
        (by rw [Nat.pow_zero, Nat.mul_one, Nat.mod_eq_of_lt hlt])
      refine ⟨da', k' + 1, hrun, Nat.succ_le_succ hle, ?_⟩
      rw [hal, ← two_pow_step]
      rfl
    · exact ⟨da, 0, rfl, Nat.zero_le _, hself.symm⟩

theorem insertDynamicArray_spec {fuel : Nat} {d : List Nat} (ha : da.allocated < 65536)
    (h : ∃ b, Rep da data b) (hd : d.length = da.dataSize)
    (hr : insertDynamicArray e fuel da d = some da') :
    (∃ b, Rep da' (data ++ [d]) b) ∧ da'.used ≤ da'.allocated ∧ da'.allocated < 65536 ∧
      da'.dataSize = da.dataSize ∧ ∃ k, da'.allocated = da.allocated * 2 ^ k % 65536 := by
  obtain ⟨room, hroom, rfl⟩ := Option.map_eq_some_iff.mp hr
  obtain ⟨⟨b, hb⟩, hlt, ha', hds, hk⟩ := makeRoom_spec ha (fun _ => h) hroom
  have hused : (room.used + 1) % 65536 = room.used + 1 := Nat.mod_eq_of_lt (by omega)
  have hsize : (room.used + 1) * room.dataSize ≤ b.size :=
    Nat.le_trans (Nat.mul_le_mul_right _ hlt) hb.allocatedIn
  refine ⟨⟨{ b with bytes := store b.bytes (room.dataSize * room.used) d }, ?_, ?_, hb.pos, ?_, ?_,
    hb.allocatedIn, ?_⟩, ?_, ha', hds, hk⟩
  · show room.array.map _ = _
    rw [hb.array]
    rfl
  · show (room.used + 1) % 65536 = _
    rw [hused, hb.used, List.length_append, List.length_singleton]
  · intro x hx
    rcases List.mem_append.mp hx with hx | hx
    · exact hb.lengths x hx
    · rw [List.mem_singleton.mp hx]
      exact hd.trans hds.symm
  · show (room.used + 1) % 65536 * room.dataSize ≤ b.size
    rwa [hused]
  · rw [List.flatten_append, List.flatten_singleton, hb.used,
      ← length_flatten_of_lengths hb.lengths]
    have happend : Stored (store b.bytes (0 + data.flatten.length) d) 0 (data.flatten ++ d) :=
      hb.stored.append
    rwa [Nat.zero_add] at happend
  · show (room.used + 1) % 65536 ≤ room.allocated
    rw [hused]
    exact hlt

/-- What a run of insertions gives, if each of them returns. -/
theorem insertAll_spec {fuel : Nat} {more : List (List Nat)} (ha : da.allocated < 65536)
    (h : ∃ b, Rep da data b) (hd : ∀ d ∈ more, d.length = da.dataSize)
    (hr : insertAll e fuel da more = some da') :
    (∃ b, Rep da' (data ++ more) b) ∧
      (more ≠ [] → ∃ k, data.length + more.length ≤ da.allocated * 2 ^ k % 65536) := by
  induction more generalizing da data with
  | nil =>
    obtain rfl := Option.some.inj hr
    rw [List.append_nil]
    exact ⟨h, fun hne => absurd rfl hne⟩
  | cons d more ih =>
    obtain ⟨hfirst, hrest⟩ := List.forall_mem_cons.mp hd
    obtain ⟨mid, hmid, hr⟩ := Option.bind_eq_some_iff.mp hr
    obtain ⟨hb, hle, ha', hds, k, hk⟩ := insertDynamicArray_spec ha h hfirst hmid
    obtain ⟨hrep, hcount⟩ := ih ha' hb (fun x hx => (hrest x hx).trans hds.symm) hr
    rw [List.append_assoc] at hrep
    refine ⟨hrep, fun _ => ?_⟩
    by_cases hmore : more = []
    · subst hmore
      obtain ⟨b, hb⟩ := hb
      refine ⟨k, ?_⟩
      rw [← hk]
      have hused := hb.used
      rw [List.length_append] at hused
      show data.length + 1 ≤ mid.allocated
      rw [List.length_singleton] at hused
      omega
    · obtain ⟨j, hj⟩ := hcount hmore
      refine ⟨k + j, ?_⟩
      rw [List.length_append, List.length_singleton, hk, Nat.mod_mul_mod, Nat.mul_assoc,
        ← Nat.pow_add] at hj
      rw [List.length_cons]
      omega

/-- The capacity is one of those on the way from `a` to its doubling number `m`. -/
def DynamicArray.OnWay (da : DynamicArray) (a m : Nat) : Prop :=
  ∃ k ≤ m, da.allocated = a * 2 ^ k % 65536

/-- An insertion returns as long as doubling number `m` has room. -/
theorem insertDynamicArray_ends {a m fuel : Nat} {d : List Nat} (hf : m < fuel)
    (ha : da.allocated < 65536) (hway : da.OnWay a m) (hm : da.used < a * 2 ^ m % 65536) :
    ∃ da', insertDynamicArray e fuel da d = some da' ∧ da'.OnWay a m := by
  obtain ⟨k, hkm, hk⟩ := hway
  have hfits : da.used < da.allocated * 2 ^ (m - k) % 65536 := by
    rwa [hk, Nat.mod_mul_mod, Nat.mul_assoc, ← Nat.pow_add, Nat.add_sub_cancel' hkm]
  obtain ⟨room, k', hroom, hle, hal⟩ :=
    makeRoom_ends (e := e) (show m - k < fuel by omega) ha hfits
  refine ⟨_, Option.map_eq_some_iff.mpr ⟨room, hroom, rfl⟩, k + k', by omega, ?_⟩
  show room.allocated = _
  rw [hal, hk, Nat.mod_mul_mod, Nat.mul_assoc, ← Nat.pow_add]

/-- A run of insertions returns as long as some doubling of the capacity has room for it. -/
theorem insertAll_ends {a m fuel : Nat} {more : List (List Nat)} (hf : m < fuel)
    (ha : da.allocated < 65536) (h : ∃ b, Rep da data b) (hd : ∀ d ∈ more, d.length = da.dataSize)
    (hway : da.OnWay a m) (hm : data.length + more.length ≤ a * 2 ^ m % 65536) :
    ∃ da', insertAll e fuel da more = some da' := by
  induction more generalizing da data with
  | nil => exact ⟨da, rfl⟩
  | cons d more ih =>
    obtain ⟨hfirst, hrest⟩ := List.forall_mem_cons.mp hd
    obtain ⟨b, hb⟩ := h
    rw [List.length_cons] at hm
    obtain ⟨mid, hmid, hway'⟩ := insertDynamicArray_ends (e := e) (d := d) hf ha hway
      (by rw [hb.used]; omega)
    obtain ⟨hb', -, ha', hds, -⟩ := insertDynamicArray_spec ha ⟨b, hb⟩ hfirst hmid
    obtain ⟨da', hrun⟩ := ih ha' hb' (fun x hx => (hrest x hx).trans hds.symm) hway'
      (by rw [List.length_append, List.length_singleton]; omega)
    exact ⟨da', Option.bind_eq_some_iff.mpr ⟨mid, hmid, hrun⟩⟩

/-! ## Sorting -/

/-- A write to the places of elements that are there keeps everything but their bytes. -/
theorem Rep.setElem (h : Rep da data b) {j : Nat} (hj : j < data.length) {x : List Nat}
    (hx : x.length = da.dataSize) : ∃ b', Rep (da.setElem j x) (data.set j x) b' := by
  obtain ⟨l, r, hdata, hl, hset⟩ := @List.exists_of_set _ j x data hj
  have hlens : ∀ d ∈ l ++ data[j] :: r, d.length = da.dataSize := hdata ▸ h.lengths
  obtain ⟨hpre, hd, hpost⟩ : (∀ d ∈ l, d.length = da.dataSize) ∧ data[j].length = da.dataSize ∧
      ∀ d ∈ r, d.length = da.dataSize := by
    rwa [List.forall_mem_append, List.forall_mem_cons] at hlens
  have hflat : l.flatten.length = da.dataSize * j := by rw [length_flatten_of_lengths hpre, hl]
  have hstored := h.stored
  rw [hdata, List.flatten_append, List.flatten_cons, stored_append, stored_append, hflat, hd,
    Nat.zero_add] at hstored
  refine ⟨{ b with bytes := store b.bytes (da.dataSize * j) x }, ?_, ?_, h.pos, ?_, h.usedIn,
    h.allocatedIn, ?_⟩
  · show da.array.map _ = _
    rw [h.array]
    rfl
  · rw [List.length_set]
    exact h.used
  · rw [hset, List.forall_mem_append, List.forall_mem_cons]
    exact ⟨hpre, hx, hpost⟩
  · rw [hset, List.flatten_append, List.flatten_cons, stored_append, stored_append, hflat, hx,
      Nat.zero_add]
    refine ⟨hstored.1.move fun i hi => store_below ?_, stored_store,
      hstored.2.2.move fun i _ => store_above ?_⟩
    · rw [Nat.zero_add]
      exact hflat ▸ hi
    · rw [hx]
      exact Nat.le_add_right _ _

theorem Rep.sortStep (h : Rep da data b) (cmp : List Nat → List Nat → Int) {j : Nat}
    (hj : j + 1 < data.length) :
    ∃ b', Rep (sortStep cmp da j) (compareSwap cmp j data) b' := by
  have helem (i : Nat) (hi : i < data.length) : da.elem i = data[i] := by
    have hget := List.getElem_of_eq h.elems.symm hi
    rw [hget]
    simp [DynamicArray.elems]
  rw [compareSwap_eq hj, Cd.sortStep, helem j (by omega), helem (j + 1) hj]
  split_ifs
  · obtain ⟨b1, h1⟩ := h.setElem (x := data[j + 1]) (j := j) (by omega)
      (h.lengths _ (List.getElem_mem hj))
    exact h1.setElem (by rw [List.length_set]; exact hj) (h.lengths _ (List.getElem_mem _))
  · exact ⟨b, h⟩

theorem Rep.sortPass (h : Rep da data b) (cmp : List Nat → List Nat → Int) {m : Nat}
    (hm : m < data.length) :
    ∃ b', Rep ((List.range m).foldl (Cd.sortStep cmp) da) (bubblePass cmp m data) b' := by
  unfold bubblePass
  induction m with
  | zero => exact ⟨b, h⟩
  | succ m ih =>
    obtain ⟨b', h'⟩ := ih (Nat.lt_of_succ_lt hm)
    rw [List.range_succ, List.foldl_append, List.foldl_append]
    exact h'.sortStep cmp (by rw [length_foldl_compareSwap]; exact hm)

/-- `SortDynamicArray` sorts the elements as bubble sort does. -/
theorem Rep.sort (h : Rep da data b) (cmp : List Nat → List Nat → Int) :
    ∃ b', Rep (sortDynamicArray cmp da) (bubbleSort cmp data) b' := by
  unfold sortDynamicArray
  split_ifs with hone
  · have hzero : data.length - 1 = 0 := by rw [← h.used]; omega
    rw [bubbleSort, hzero]
    exact ⟨b, h⟩
  · rw [bubbleSort, h.used]
    have hrun (k : Nat) (hk : k < data.length) :
        ∃ b', Rep
          ((List.range k).foldl
            (fun da i => (List.range (da.used - i - 1)).foldl (Cd.sortStep cmp) da) da)
          ((List.range k).foldl (fun r i => bubblePass cmp (data.length - i - 1) r) data) b' := by
      induction k with
      | zero => exact ⟨b, h⟩
      | succ k ih =>
        obtain ⟨b', h'⟩ := ih (Nat.lt_of_succ_lt hk)
        have hlen := (@passes_perm _ cmp data.length (List.range k) data).length_eq
        rw [List.range_succ, List.foldl_append, List.foldl_append, List.foldl_cons,
          List.foldl_nil, h'.used, hlen]
        exact h'.sortPass cmp (by omega)
    exact hrun (data.length - 1) (by rw [← h.used]; omega)

/-! ## The list -/

/-- The elements are `data`, inside of the block. -/
structure DynamicArray.Holds (da : DynamicArray) (data : List (List Nat)) : Prop where
  used : da.used = data.length
  elems : da.elems = data
  inside : ∃ b, da.array = some b ∧ da.used * da.dataSize ≤ b.size

/-- `SortDynamicArray` with this comparator puts the elements in order. -/
structure DynamicArray.SortsBy (da : DynamicArray) (cmp : List Nat → List Nat → Int) : Prop where
  holds : (sortDynamicArray cmp da).Holds (sortDynamicArray cmp da).elems
  perm : (sortDynamicArray cmp da).elems.Perm da.elems
  sorted : (sortDynamicArray cmp da).elems.Pairwise fun a b => cmp a b ≤ 0
  stable : ∀ c, (sortDynamicArray cmp da).elems.filter (compareEqual cmp c) =
    da.elems.filter (compareEqual cmp c)

/-- `n` insertions return, and the array is then the list of what was inserted. -/
def IsList (dataSize initialAllocation : Int) (n : Nat) : Prop :=
  ∀ (e : Allocator) (data : List (List Nat)), data.length = n →
    (∀ d ∈ data, d.length = dataSize.toNat) →
    ∃ fuel da, (createDynamicArray e dataSize initialAllocation).bind (insertAll e fuel · data) =
        some da ∧ da.Holds data ∧ ∀ cmp, TotalPreorder cmp → da.SortsBy cmp

theorem Rep.holds (h : Rep da data b) : da.Holds data :=
  ⟨h.used, h.elems, b, h.array, h.usedIn⟩

theorem Rep.sortsBy (h : Rep da data b) {cmp : List Nat → List Nat → Int}
    (hcmp : TotalPreorder cmp) : da.SortsBy cmp := by
  obtain ⟨b', h'⟩ := h.sort cmp
  have helems := h'.elems
  refine ⟨?_, ?_, ?_, fun c => ?_⟩
  · rw [helems]
    exact h'.holds
  · rw [helems, h.elems]
    exact bubbleSort_perm data
  · rw [helems]
    exact bubbleSort_sorted hcmp data
  · rw [helems, h.elems]
    exact bubbleSort_filter hcmp c data

section Create

variable {dataSize initialAllocation : Int} {n : Nat}

theorem clamp_initial (n : Int) : (if n < 1 then 1 else n) = max n 1 := by omega

/-- The array that is made, if the size of its block is an `int`. -/
theorem createDynamicArray_spec (h1 : 1 ≤ dataSize) (h255 : dataSize ≤ 255)
    (hfits : dataSize * max initialAllocation 1 ≤ 2147483647) :
    ∃ da, createDynamicArray e dataSize initialAllocation = some da ∧ (∃ b, Rep da [] b) ∧
      da.allocated = (max initialAllocation 1).toNat % 65536 ∧ da.dataSize = dataSize.toNat := by
  have hinit := clamp_initial initialAllocation
  generalize hm : max initialAllocation 1 = m at hfits hinit
  have hm1 : 1 ≤ m := by omega
  have hprod : 0 < dataSize * m := Int.mul_pos (by omega) (by omega)
  unfold createDynamicArray
  rw [hinit]
  dsimp only
  rw [cInt_of_fits ⟨by omega, hfits⟩]
  have hds : (dataSize % 256).toNat = dataSize.toNat := by omega
  refine ⟨_, rfl, ⟨⟨_, _⟩, if_neg (by omega), rfl, ?_, nofun, ?_, ?_, trivial⟩, ?_, hds⟩
  · show 0 < (dataSize % 256).toNat
    omega
  · rw [Nat.zero_mul]
    exact Nat.zero_le _
  · refine Nat.le_trans ?_ (e.le_payload _)
    show (m % 65536).toNat * (dataSize % 256).toNat ≤ (dataSize * m).toNat
    rw [hds, Int.toNat_mul (by omega) (by omega), Nat.mul_comm]
    exact Nat.mul_le_mul_left _ (by omega)
  · show (m % 65536).toNat = m.toNat % 65536
    omega

theorem isList_of_capacity (h1 : 1 ≤ dataSize) (h255 : dataSize ≤ 255)
    (hfits : dataSize * max initialAllocation 1 ≤ 2147483647)
    (hcap : ∃ k, n ≤ (max initialAllocation 1).toNat * 2 ^ k % 65536) :
    IsList dataSize initialAllocation n := by
  rintro e data rfl hlen
  obtain ⟨k, hk⟩ := hcap
  obtain ⟨da, hda, hrep, hal, hds⟩ := createDynamicArray_spec (e := e) h1 h255 hfits
  have hlt : da.allocated < 65536 := hal ▸ Nat.mod_lt _ (by decide)
  have hlens : ∀ d ∈ data, d.length = da.dataSize := hds ▸ hlen
  obtain ⟨da', hrun⟩ := insertAll_ends (e := e) (Nat.lt_succ_self k) hlt hrep hlens
    ⟨0, Nat.zero_le k, by rw [hal, Nat.pow_zero, Nat.mul_one]⟩
    (by rwa [List.length_nil, Nat.zero_add])
  obtain ⟨⟨b, hb⟩, -⟩ := insertAll_spec hlt hrep hlens hrun
  refine ⟨k + 1, da', ?_, hb.holds, fun cmp hcmp => hb.sortsBy hcmp⟩
  rw [hda]
  exact hrun

theorem IsList.capacity (h1 : 1 ≤ dataSize) (h255 : dataSize ≤ 255)
    (h : IsList dataSize initialAllocation n) :
    dataSize * max initialAllocation 1 ≤ 2147483647 ∧
      ∃ k, n ≤ (max initialAllocation 1).toNat * 2 ^ k % 65536 := by
  obtain ⟨fuel, da', hrun, -⟩ := h ⟨id, fun _ => Nat.le_refl _, fun _ _ => 0⟩
    (List.replicate n (List.replicate dataSize.toNat 0)) List.length_replicate (fun d hd => by
      rw [List.eq_of_mem_replicate hd, List.length_replicate])
  obtain ⟨da, hda, hrun⟩ := Option.bind_eq_some_iff.mp hrun
  have hfits : dataSize * max initialAllocation 1 ≤ 2147483647 := by
    obtain ⟨bytes, hbytes, -⟩ := Option.map_eq_some_iff.mp hda
    rw [clamp_initial] at hbytes
    exact (cInt_eq_some.mp hbytes).1.2
  refine ⟨hfits, ?_⟩
  obtain ⟨da0, hda0, hrep, hal, hds⟩ := createDynamicArray_spec (e := _) h1 h255 hfits
  rw [hda0] at hda
  obtain rfl := Option.some.inj hda
  have hlt : da0.allocated < 65536 := hal ▸ Nat.mod_lt _ (by decide)
  have hcount := (insertAll_spec hlt hrep (fun d hd => by
    rw [List.eq_of_mem_replicate hd, List.length_replicate, hds]) hrun).2
  by_cases h0 : n = 0
  · exact ⟨0, by omega⟩
  obtain ⟨k, hk⟩ := hcount (by
    rw [Ne, ← List.length_eq_zero_iff, List.length_replicate]
    exact h0)
  rw [List.length_nil, Nat.zero_add, List.length_replicate, hal, Nat.mod_mul_mod] at hk
  exact ⟨k, hk⟩

/--
`n` insertions are a list of `n` elements if and only if an `int` can hold the size of the first
block, and some doubling of the initial capacity, in 16 bits, has room for `n` elements.
-/
theorem isList_iff (h1 : 1 ≤ dataSize) (h255 : dataSize ≤ 255) :
    IsList dataSize initialAllocation n ↔
      dataSize * max initialAllocation 1 ≤ 2147483647 ∧
        ∃ k, n ≤ (max initialAllocation 1).toNat * 2 ^ k % 65536 :=
  ⟨IsList.capacity h1 h255, fun h => isList_of_capacity h1 h255 h.1 h.2⟩

theorem isList_iff_crossings :
    IsList 8 8 32768 ↔ (8 : Int) * max 8 1 ≤ 2147483647 ∧
      ∃ k, 32768 ≤ (max 8 1 : Int).toNat * 2 ^ k % 65536 :=
  isList_iff (by decide) (by decide)

/-- From 8 on, the capacity is never more than 32768. -/
theorem capacity_of_eight (k : Nat) : (max 8 1 : Int).toNat * 2 ^ k % 65536 ≤ 32768 := by
  rcases Nat.lt_or_ge k 13 with hlt | hge
  · have hpow : 2 ^ k ≤ 2 ^ 12 := Nat.pow_le_pow_right (by decide) (Nat.le_of_lt_succ hlt)
    exact Nat.le_trans (Nat.mod_le _ _) (Nat.mul_le_mul_left 8 hpow)
  · rw [← Nat.add_sub_cancel' hge, Nat.pow_add, ← Nat.mul_assoc]
    show 65536 * 2 ^ (k - 13) % 65536 ≤ 32768
    rw [Nat.mul_mod_right]
    exact Nat.zero_le _

theorem not_isList_crossings :
    ¬ ∀ dataSize initialAllocation n, 1 ≤ dataSize → dataSize ≤ 255 →
      IsList dataSize initialAllocation n := by
  intro hall
  obtain ⟨-, k, hk⟩ := (hall 8 8 32769 (by decide) (by decide)).capacity (by decide) (by decide)
  exact absurd (Nat.le_trans hk (capacity_of_eight k)) (by decide)

end Create

end Nolrem.Cd
