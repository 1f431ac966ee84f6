import Mathlib.Algebra.BigOperators.Group.Finset.Sigma
import Mathlib.Data.Nat.Count
import Nolrem.Cd.RegionArea

/-!
# Regions from bitmasks

`CdCreateRegionFromBitmask` of `kernel/CLIPDRAW/fully_pageable/bitmask2rgn.c`, which adds a scanline
for each run of set bits. No allocation of the region fails.
-/

namespace Nolrem.Cd

open Nolrem.Lib

/-! ## The code -/

/-- The bit `dx` of row `i`, the most significant bit of a byte first. -/
def bitmaskBit (data : Nat → Nat) (bytesPerRow i dx : Nat) : Bool :=
  (data (i * bytesPerRow + dx / 8)).testBit (7 - dx % 8)

/--
The inner loop from `dx` on, with `n` bits left: the spans that are added. `start` is `span_start_x`
while `inside_span` is set.
-/
def bitmaskSpans (bit : Nat → Bool) (x : Int) : Nat → Nat → Option Int → List (Int × Int)
  | 0, _, none => []
  | 0, dx, some start => [(toInt16 start, toInt16 (x + dx))]
  | n + 1, dx, none =>
    if bit dx then bitmaskSpans bit x n (dx + 1) (some (x + dx))
    else bitmaskSpans bit x n (dx + 1) none
  | n + 1, dx, some start =>
    if bit dx then bitmaskSpans bit x n (dx + 1) (some start)
    else (toInt16 start, toInt16 (x + dx)) :: bitmaskSpans bit x n (dx + 1) none

/-- `CdCreateRegionFromBitmask` -/
def cdCreateRegionFromBitmask (h : RegionHeap) (x y width height : Int)
    (data : Option (Nat → Nat)) : RegionHeap × Region :=
  match data with
  | none => buildRegion h (toInt16 y) []
  | some data =>
    if width ≤ 0 ∨ height ≤ 0 then buildRegion h (toInt16 y) []
    else
      let bytesPerRow := ((width + 7) / 8).toNat
      buildRegion h (toInt16 y) ((List.range height.toNat).flatMap fun i =>
        -- one call of `AddScanline` for each span
        (bitmaskSpans (bitmaskBit data bytesPerRow i) x width.toNat 0 none).map
          fun span => ([span], false))

/-! ## The runs of a row -/

/-- The runs of set bits, as `bitmaskSpans` finds them. -/
def bitRuns (bit : Nat → Bool) : Nat → Nat → Option Nat → List (Nat × Nat)
  | 0, _, none => []
  | 0, dx, some start => [(start, dx)]
  | n + 1, dx, none =>
    if bit dx then bitRuns bit n (dx + 1) (some dx) else bitRuns bit n (dx + 1) none
  | n + 1, dx, some start =>
    if bit dx then bitRuns bit n (dx + 1) (some start)
    else (start, dx) :: bitRuns bit n (dx + 1) none

section Runs

variable {bit : Nat → Bool} {x : Int}

theorem bitmaskSpans_eq {n dx : Nat} {start : Option Nat} (hx : -32768 ≤ x)
    (hx' : x + (dx + n : Nat) ≤ 32767) (hs : ∀ s ∈ start, s ≤ dx) :
    bitmaskSpans bit x n dx (start.map fun s : Nat => x + s) =
      (bitRuns bit n dx start).map fun r => (x + r.1, x + r.2) := by
  induction n generalizing dx start with
  | zero =>
    cases start with
    | none => rfl
    | some s =>
      have hle := hs s rfl
      show [(toInt16 (x + s), toInt16 (x + dx))] = _
      rw [toInt16_of_mem (by omega) (by omega), toInt16_of_mem (by omega) (by omega)]
      rfl
  | succ n ih =>
    have hend : x + (dx + 1 + n : Nat) ≤ 32767 := by
      rw [Nat.add_right_comm]
      exact hx'
    cases start with
    | none =>
      simp only [Option.map_none, bitmaskSpans, bitRuns]
      split_ifs
      · exact @ih _ (some dx) hend (by rintro s ⟨⟩; omega)
      · exact @ih _ none hend nofun
    | some s =>
      have hle := hs s rfl
      simp only [Option.map_some, bitmaskSpans, bitRuns]
      split_ifs
      · exact @ih _ (some s) hend (by rintro s ⟨⟩; omega)
      · rw [toInt16_of_mem (by omega) (by omega), toInt16_of_mem (by omega) (by omega),
          List.map_cons]
        exact congrArg _ (@ih _ none hend nofun)

/-- The bits of a list of runs, which do not even touch. -/
structure RunsOf (runs : List (Nat × Nat)) (first : Nat) (set : Nat → Prop) : Prop where
  nonempty : ∀ r ∈ runs, first ≤ r.1 ∧ r.1 < r.2
  apart : runs.Pairwise fun r r' => r.2 < r'.1
  bits : ∀ j, (∃ r ∈ runs, r.1 ≤ j ∧ j < r.2) ↔ set j

theorem runsOf_bitRuns (n dx : Nat) :
    RunsOf (bitRuns bit n dx none) dx (fun j => dx ≤ j ∧ j < dx + n ∧ bit j = true) ∧
      ∀ s < dx, RunsOf (bitRuns bit n dx (some s)) s
        (fun j => s ≤ j ∧ j < dx ∨ dx ≤ j ∧ j < dx + n ∧ bit j = true) := by
  induction n generalizing dx with
  | zero =>
    refine ⟨⟨nofun, List.Pairwise.nil, fun j => ?_⟩, fun s hs => ⟨?_, List.pairwise_singleton _ _,
      fun j => ?_⟩⟩
    · refine iff_of_false (by rintro ⟨r, hr, -⟩; exact List.not_mem_nil hr) (by omega)
    · rintro r hr
      obtain rfl := List.mem_singleton.mp hr
      exact ⟨Nat.le_refl _, hs⟩
    · constructor
      · rintro ⟨r, hr, h1, h2⟩
        obtain rfl := List.mem_singleton.mp hr
        exact Or.inl ⟨h1, h2⟩
      · rintro (h | h)
        · exact ⟨_, List.mem_singleton_self _, h⟩
        · omega
  | succ n ih =>
    obtain ⟨hnone, hsome⟩ := ih (dx + 1)
    constructor
    · rw [bitRuns]
      split_ifs with hbit
      · -- a run begins
        obtain ⟨h1, h2, h3⟩ := hsome dx (Nat.lt_succ_self dx)
        refine ⟨h1, h2, fun j => (h3 j).trans ?_⟩
        constructor
        · rintro (h | h)
          · obtain rfl : j = dx := by omega
            exact ⟨h.1, by omega, hbit⟩
          · exact ⟨by omega, by omega, h.2.2⟩
        · rintro ⟨hle, hlt, hj⟩
          by_cases hjd : j = dx
          · exact Or.inl ⟨hle, by omega⟩
          · exact Or.inr ⟨by omega, by omega, hj⟩
      · obtain ⟨h1, h2, h3⟩ := hnone
        refine ⟨fun r hr => ⟨Nat.le_of_succ_le (h1 r hr).1, (h1 r hr).2⟩, h2,
          fun j => (h3 j).trans ?_⟩
        constructor
        · rintro ⟨hle, hlt, hj⟩
          exact ⟨by omega, by omega, hj⟩
        · rintro ⟨hle, hlt, hj⟩
          have hne : j ≠ dx := by
            rintro rfl
            exact hbit hj
          exact ⟨by omega, by omega, hj⟩
    · intro s hs
      rw [bitRuns]
      split_ifs with hbit
      · -- the run goes on
        obtain ⟨h1, h2, h3⟩ := hsome s (Nat.lt_succ_of_lt hs)
        refine ⟨h1, h2, fun j => (h3 j).trans ?_⟩
        constructor
        · rintro (h | h)
          · by_cases hjd : j = dx
            · exact Or.inr ⟨by omega, by omega, hjd ▸ hbit⟩
            · exact Or.inl ⟨h.1, by omega⟩
          · exact Or.inr ⟨by omega, by omega, h.2.2⟩
        · rintro (h | ⟨hle, hlt, hj⟩)
          · exact Or.inl ⟨h.1, by omega⟩
          · by_cases hjd : j = dx
            · exact Or.inl ⟨by omega, by omega⟩
            · exact Or.inr ⟨by omega, by omega, hj⟩
      · -- the run ends
        obtain ⟨h1, h2, h3⟩ := hnone
        refine ⟨List.forall_mem_cons.mpr ⟨⟨Nat.le_refl _, hs⟩, fun r hr => ⟨?_, (h1 r hr).2⟩⟩,
          List.pairwise_cons.mpr ⟨fun r hr => (h1 r hr).1, h2⟩, fun j => ?_⟩
        · have := (h1 r hr).1
          omega
        · rw [List.exists_mem_cons_iff, h3]
          refine or_congr Iff.rfl ?_
          constructor
          · rintro ⟨hle, hlt, hj⟩
            exact ⟨by omega, by omega, hj⟩
          · rintro ⟨hle, hlt, hj⟩
            have hne : j ≠ dx := by
              rintro rfl
              exact hbit hj
            exact ⟨by omega, by omega, hj⟩

variable {runs : List (Nat × Nat)} {first : Nat} {set : Nat → Prop}

/-- Where the set bits are an interval there is one run. -/
theorem RunsOf.single (h : RunsOf runs first set) {a b : Nat} (hab : a < b)
    (hset : ∀ j, set j ↔ a ≤ j ∧ j < b) : ∃ r, runs = [r] := by
  match runs, h with
  | [], h =>
    obtain ⟨r, hr, -⟩ := (h.bits a).mpr ((hset a).mpr ⟨Nat.le_refl a, hab⟩)
    exact absurd hr List.not_mem_nil
  | [r], h => exact ⟨r, rfl⟩
  | r :: r' :: rest, h =>
    -- the bit behind the first run is between two bits that are set
    obtain ⟨hr, hr'⟩ : r.1 < r.2 ∧ r'.1 < r'.2 :=
      ⟨(h.nonempty r (by simp)).2, (h.nonempty r' (by simp)).2⟩
    have h1 := (hset r.1).mp ((h.bits r.1).mp ⟨r, by simp, Nat.le_refl _, hr⟩)
    have h2 := (hset r'.1).mp ((h.bits r'.1).mp ⟨r', by simp, Nat.le_refl _, hr'⟩)
    obtain ⟨hfirst, hrest⟩ := List.pairwise_cons.mp h.apart
    have hgap := hfirst r' List.mem_cons_self
    obtain ⟨q, hq, hq1, hq2⟩ := (h.bits r.2).mpr ((hset r.2).mpr ⟨by omega, by omega⟩)
    rcases List.mem_cons.mp hq with rfl | hq
    · omega
    · have := hfirst q hq
      omega

theorem RunsOf.eq_nil (h : RunsOf runs first set) (hset : ∀ j, ¬ set j) : runs = [] := by
  refine List.eq_nil_iff_forall_not_mem.mpr fun r hr => ?_
  exact hset r.1 ((h.bits r.1).mp ⟨r, hr, Nat.le_refl _, (h.nonempty r hr).2⟩)

end Runs

/-! ## What is asked of the region -/

/-- Bit `dx` of row `i` is set. There is none without data. -/
def bitIsSet (data : Option (Nat → Nat)) (width : Int) (i dx : Nat) : Bool :=
  data.any fun data => bitmaskBit data ((width + 7) / 8).toNat i dx

/-- The pixels are those of the bits. -/
def IsBitmask (h : RegionHeap) (rgn : Region) (x y width height : Int) (bit : Nat → Nat → Bool) :
    Prop :=
  ∀ p, p ∈ pixels h rgn ↔
    ∃ i dx : Nat, i < height ∧ dx < width ∧ bit i dx = true ∧ p = (x + dx, y + i)

/-- The bits of a row that are set are one run. -/
def OneRun (bit : Nat → Bool) (width : Int) : Prop :=
  ∃ a b : Nat, a < b ∧ b ≤ width ∧ ∀ dx : Nat, dx < width → (bit dx = true ↔ a ≤ dx ∧ dx < b)

/-- The first rows have one run each, and the others have none. -/
def OneRunEach (bit : Nat → Nat → Bool) (width height : Int) : Prop :=
  ∃ m : Nat, (∀ i : Nat, i < m → i < height → OneRun (bit i) width) ∧
    ∀ i dx : Nat, m ≤ i → i < height → dx < width → bit i dx = false

section Region

variable {bit : Nat → Nat → Bool} {x y : Int} {w m : Nat} {r : Nat → Nat × Nat}

/-- All of the runs, row by row. -/
def allRuns (bit : Nat → Nat → Bool) (w height : Nat) : List (Nat × Nat) :=
  (List.range height).flatMap fun i => bitRuns (bit i) w 0 none

theorem runsOf_row (bit : Nat → Bool) (w : Nat) :
    RunsOf (bitRuns bit w 0 none) 0 (fun j => j < w ∧ bit j = true) := by
  obtain ⟨h1, h2, h3⟩ := (runsOf_bitRuns w 0).1
  refine ⟨h1, h2, fun j => (h3 j).trans ?_⟩
  simp

theorem run_le {bit : Nat → Bool} {r : Nat × Nat} (hr : r ∈ bitRuns bit w 0 none) :
    r.1 < r.2 ∧ r.2 ≤ w := by
  have h := runsOf_row bit w
  have hlt := (h.nonempty r hr).2
  have hlast := ((h.bits (r.2 - 1)).mp ⟨r, hr, by omega, by omega⟩).1
  exact ⟨hlt, by omega⟩

theorem mem_allRuns_le {height : Nat} {r : Nat × Nat} (hr : r ∈ allRuns bit w height) :
    r.1 < r.2 ∧ r.2 ≤ w := by
  obtain ⟨i, -, hr⟩ := List.mem_flatMap.mp hr
  exact run_le hr

/-- With one run in each of the first rows, a run has the number of its row. -/
theorem allRuns_eq {height : Nat} (hle : m ≤ height)
    (hone : ∀ i < m, bitRuns (bit i) w 0 none = [r i])
    (hnone : ∀ i, m ≤ i → i < height → bitRuns (bit i) w 0 none = []) :
    allRuns bit w height = (List.range m).map r := by
  obtain ⟨k, rfl⟩ := Nat.exists_eq_add_of_le hle
  unfold allRuns
  rw [List.range_add, List.flatMap_append, List.flatMap_map]
  have hfirst : (List.range m).flatMap (fun i => bitRuns (bit i) w 0 none) =
      (List.range m).map r := by
    rw [← List.flatMap_singleton' ((List.range m).map r), List.flatMap_map]
    exact List.flatMap_congr fun i hi => hone i (List.mem_range.mp hi)
  have hrest : (List.range k).flatMap (fun i => bitRuns (bit (m + i)) w 0 none) = [] := by
    refine List.flatMap_eq_nil_iff.mpr fun i hi => ?_
    have := List.mem_range.mp hi
    exact hnone (m + i) (by omega) (by omega)
  rw [hfirst, hrest, List.append_nil]

/-- The row that a call of `AddScanline` makes of a run. -/
def runRow (x : Int) (r : Nat × Nat) : Row := ([(x + r.1, x + r.2)], false)

theorem narrow_runRow {r : Nat × Nat} (hx : -32768 ≤ x) (hx' : x + w ≤ 32767)
    (hr : r.1 < r.2 ∧ r.2 ≤ w) : Narrow (runRow x r).1 := by
  intro s hs
  obtain rfl := List.mem_singleton.mp hs
  exact ⟨⟨by dsimp only; omega, by dsimp only; omega⟩, by dsimp only; omega, by dsimp only; omega⟩

/-- As long as there are not too many, each run is in the row of its number. -/
theorem mem_pixels_runs (h : RegionHeap) {runs : List (Nat × Nat)} (hx : -32768 ≤ x)
    (hx' : x + w ≤ 32767) (hy : -32768 ≤ y) (hend : y + runs.length ≤ 32767)
    (hruns : ∀ r ∈ runs, r.1 < r.2 ∧ r.2 ≤ w) {px py : Int} :
    (px, py) ∈ pixels (buildRegion h y (runs.map (runRow x))).1
        (buildRegion h y (runs.map (runRow x))).2 ↔
      ∃ (k : Nat) (r : Nat × Nat), runs[k]? = some r ∧ py = y + k ∧ x + r.1 ≤ px ∧
        px < x + r.2 := by
  have hrow := regionRow_buildRegion h hy
    (show y + (runs.map (runRow x)).length ≤ 32767 by rwa [List.length_map])
    (fun row hrow => by
      obtain ⟨r, hr, rfl⟩ := List.mem_map.mp hrow
      exact ⟨narrow_runRow hx hx' (hruns r hr), by show 1 ≤ 16383; decide⟩)
    ((List.isChain_map _).mpr (List.pairwise_of_forall fun _ _ => nofun).isChain) py
  rw [mem_pixels, hrow]
  unfold rowAt
  constructor
  · rintro ⟨s, hs, h0, h1⟩
    split_ifs at hs with hneg
    · exact absurd hs List.not_mem_nil
    · rw [List.getD_eq_getElem?_getD, List.getElem?_map] at hs
      cases hk : runs[(py - y).toNat]? with
      | none =>
        rw [hk] at hs
        exact absurd hs List.not_mem_nil
      | some r =>
        rw [hk] at hs
        obtain rfl := List.mem_singleton.mp hs
        exact ⟨_, r, hk, by omega, h0, h1⟩
  · rintro ⟨k, r, hk, rfl, h0, h1⟩
    refine ⟨(x + r.1, x + r.2), ?_, h0, h1⟩
    rw [if_neg (by omega), show (y + k - y).toNat = k by omega, List.getD_eq_getElem?_getD,
      List.getElem?_map, hk]
    exact List.mem_singleton_self _

/-- The rows with bits come first and have one run each. -/
theorem isBitmask_of_oneRunEach (h : RegionHeap) {height : Nat} (hx : -32768 ≤ x)
    (hx' : x + w ≤ 32767) (hy : -32768 ≤ y) (hy' : y + height ≤ 32767)
    (hone : OneRunEach bit w height) :
    IsBitmask (buildRegion h y ((allRuns bit w height).map (runRow x))).1
      (buildRegion h y ((allRuns bit w height).map (runRow x))).2 x y w height bit := by
  obtain ⟨m, hm, hm'⟩ := hone
  have hsingle (i : Nat) (hi : i < min m height) : ∃ r, bitRuns (bit i) w 0 none = [r] := by
    obtain ⟨a, b, hab, hbw, hbits⟩ := hm i (by omega) (by omega)
    refine (runsOf_row (bit i) w).single hab fun j => ?_
    constructor
    · rintro ⟨hj, hbit⟩
      exact (hbits j (by omega)).mp hbit
    · rintro ⟨h1, h2⟩
      exact ⟨by omega, (hbits j (by omega)).mpr ⟨h1, h2⟩⟩
  choose! r hr using hsingle
  have hruns := allRuns_eq (Nat.min_le_right m height) hr fun i h1 h2 =>
    (runsOf_row (bit i) w).eq_nil fun j ⟨hj, hbit⟩ => by
      rw [hm' i j (by omega) (by omega) (by omega)] at hbit
      cases hbit
  rintro ⟨px, py⟩
  rw [mem_pixels_runs h hx hx' hy (by rw [hruns, List.length_map, List.length_range]; omega)
    fun r hr => mem_allRuns_le hr]
  have hmem (i j : Nat) (hi : i < min m height) :
      (r i).1 ≤ j ∧ j < (r i).2 ↔ j < w ∧ bit i j = true := by
    have hrow := (runsOf_row (bit i) w).bits j
    rw [hr i hi] at hrow
    simpa using hrow
  constructor
  · rintro ⟨k, q, hk, rfl, h0, h1⟩
    rw [hruns, List.getElem?_map] at hk
    by_cases hlt : k < min m height
    · rw [List.getElem?_range hlt] at hk
      obtain rfl := Option.some.inj hk
      obtain ⟨j, rfl⟩ : ∃ j : Nat, px = x + j := ⟨(px - x).toNat, by omega⟩
      obtain ⟨hj, hbit⟩ := (hmem k j hlt).mp ⟨by omega, by omega⟩
      exact ⟨k, j, by omega, by omega, hbit, rfl⟩
    · rw [List.getElem?_eq_none (by rw [List.length_range]; omega)] at hk
      cases hk
  · rintro ⟨i, j, hi, hj, hbit, hp⟩
    obtain ⟨rfl, rfl⟩ := Prod.mk.inj hp
    have hlt : i < min m height := by
      by_contra hge
      rw [hm' i j (by omega) hi hj] at hbit
      cases hbit
    obtain ⟨h0, h1⟩ := (hmem i j hlt).mpr ⟨by omega, hbit⟩
    refine ⟨i, r i, ?_, rfl, by omega, by omega⟩
    rw [hruns, List.getElem?_map, List.getElem?_range hlt]
    rfl

/-- The other direction, where there is room below `y` for a row for each run. -/
theorem oneRunEach_of_isBitmask (h : RegionHeap) {height : Nat} (hx : -32768 ≤ x)
    (hx' : x + w ≤ 32767) (hy : -32768 ≤ y) (hend : y + (allRuns bit w height).length ≤ 32767)
    (hmask : IsBitmask (buildRegion h y ((allRuns bit w height).map (runRow x))).1
      (buildRegion h y ((allRuns bit w height).map (runRow x))).2 x y w height bit) :
    OneRunEach bit w height := by
  have hiff (i j : Nat) : (∃ r, (allRuns bit w height)[i]? = some r ∧ r.1 ≤ j ∧ j < r.2) ↔
      i < height ∧ j < w ∧ bit i j = true := by
    have hp := hmask (x + j, y + i)
    rw [mem_pixels_runs h hx hx' hy hend fun r hr => mem_allRuns_le hr] at hp
    constructor
    · rintro ⟨r, hr, h0, h1⟩
      obtain ⟨i', j', hi, hj, hbit, heq⟩ := hp.mp ⟨i, r, hr, rfl, by omega, by omega⟩
      obtain ⟨h2, h3⟩ := Prod.mk.inj heq
      obtain rfl : i = i' := by omega
      obtain rfl : j = j' := by omega
      exact ⟨by omega, by omega, hbit⟩
    · rintro ⟨hi, hj, hbit⟩
      obtain ⟨k, r, hr, h2, h0, h1⟩ := hp.mpr ⟨i, j, by omega, by omega, hbit, rfl⟩
      obtain rfl : i = k := by omega
      exact ⟨r, hr, by omega, by omega⟩
  refine ⟨(allRuns bit w height).length, fun i hi _ => ?_, fun i j hi hih hj => ?_⟩
  · have hget := List.getElem?_eq_getElem hi
    obtain ⟨h1, h2⟩ := mem_allRuns_le (List.getElem_mem hi)
    refine ⟨(allRuns bit w height)[i].1, (allRuns bit w height)[i].2, h1, by omega, fun j hj => ?_⟩
    constructor
    · intro hbit
      obtain ⟨r, hr, hj⟩ := (hiff i j).mpr ⟨by omega, by omega, hbit⟩
      rw [hget] at hr
      obtain rfl := Option.some.inj hr
      exact hj
    · exact fun hj => ((hiff i j).mp ⟨_, hget, hj⟩).2.2
  · by_contra hbit
    obtain ⟨r, hr, -⟩ := (hiff i j).mpr ⟨by omega, by omega, by simpa using hbit⟩
    rw [List.getElem?_eq_none hi] at hr
    cases hr

/-! ## Too many runs -/

/-- The number of pixels of runs. -/
def runsArea (runs : List (Nat × Nat)) : Nat := (runs.map fun r => r.2 - r.1).sum

theorem runsArea_bitRuns (bit : Nat → Bool) (n dx : Nat) :
    runsArea (bitRuns bit n dx none) = Nat.count (fun k => bit (dx + k)) n ∧
      ∀ s ≤ dx, runsArea (bitRuns bit n dx (some s)) =
        dx - s + Nat.count (fun k => bit (dx + k)) n := by
  induction n generalizing dx with
  | zero => exact ⟨rfl, fun s _ => by simp [runsArea, bitRuns]⟩
  | succ n ih =>
    obtain ⟨hnone, hsome⟩ := ih (dx + 1)
    have hcount : Nat.count (fun k => bit (dx + k)) (n + 1) =
        Nat.count (fun k => bit (dx + 1 + k)) n + if bit dx then 1 else 0 := by
      rw [Nat.count_succ']
      simp only [Nat.add_zero, Nat.add_assoc, Nat.add_comm 1]
    rw [hcount]
    constructor
    · rw [bitRuns]
      split_ifs with hbit
      · rw [hsome dx (Nat.le_succ dx)]
        omega
      · exact hnone
    · intro s hs
      rw [bitRuns]
      split_ifs with hbit
      · rw [hsome s (Nat.le_succ_of_le hs)]
        omega
      · rw [runsArea, List.map_cons, List.sum_cons, Nat.add_zero]
        exact congrArg _ hnone

/-- The places of the bits that are set. -/
def bitPixels (bit : Nat → Nat → Bool) (x y : Int) (w height : Nat) : Finset (Int × Int) :=
  ((Finset.range height).sigma fun i => (Finset.range w).filter fun dx => bit i dx = true).image
    fun q => (x + q.2, y + q.1)

theorem card_bitPixels (height : Nat) :
    (bitPixels bit x y w height).card = runsArea (allRuns bit w height) := by
  have hinj : Function.Injective fun q : (_ : Nat) × Nat => (x + (q.2 : Int), y + (q.1 : Int)) := by
    rintro ⟨i, j⟩ ⟨i', j'⟩ heq
    obtain ⟨h1, h2⟩ := Prod.mk.inj heq
    dsimp only at h1 h2
    obtain rfl : i = i' := by omega
    obtain rfl : j = j' := by omega
    rfl
  rw [bitPixels, Finset.card_image_of_injective _ hinj, Finset.card_sigma]
  induction height with
  | zero => rfl
  | succ height ih =>
    have hrow := (runsArea_bitRuns (bit height) w 0).1
    simp only [Nat.zero_add] at hrow
    have hsplit : allRuns bit w (height + 1) =
        allRuns bit w height ++ bitRuns (bit height) w 0 none := by
      unfold allRuns
      rw [List.range_succ, List.flatMap_append, List.flatMap_singleton]
    have happend : runsArea (allRuns bit w height ++ bitRuns (bit height) w 0 none) =
        runsArea (allRuns bit w height) + runsArea (bitRuns (bit height) w 0 none) := by
      unfold runsArea
      rw [List.map_append, List.sum_append]
    rw [Finset.sum_range_succ, ih, hsplit, happend, hrow, Nat.count_eq_card_filter_range]

/-- With more runs than rows there is not enough room for the pixels of all of them. -/
theorem not_isBitmask_of_gt (h : RegionHeap) {height : Nat} (hx : -32768 ≤ x)
    (hx' : x + w ≤ 32767) (hy : -32768 ≤ y) (hy' : y ≤ 32767)
    (hgt : 32767 < y + (allRuns bit w height).length) :
    ¬ IsBitmask (buildRegion h y ((allRuns bit w height).map (runRow x))).1
      (buildRegion h y ((allRuns bit w height).map (runRow x))).2 x y w height bit := by
  intro hmask
  let rows := (allRuns bit w height).map fun r => [(x + (r.1 : Int), x + (r.2 : Int))]
  have hrows : (allRuns bit w height).map (runRow x) = rows.map fun row => (row, false) := by
    rw [List.map_map]
    rfl
  have hlength : rows.length = (allRuns bit w height).length := List.length_map _
  have hsolid : ∀ row ∈ rows, Solid row := by
    intro row hrow
    obtain ⟨r, hr, rfl⟩ := List.mem_map.mp hrow
    have hle := mem_allRuns_le hr
    refine ⟨narrow_runRow hx hx' hle, by show 1 ≤ 16383; decide, ?_⟩
    show 0 < (x + r.2 - (x + r.1)).toNat + 0
    omega
  have hne : rows ≠ [] := by
    intro h0
    rw [h0] at hlength
    rw [← hlength, List.length_nil] at hgt
    omega
  have harea : rowsArea rows = runsArea (allRuns bit w height) := by
    unfold rowsArea runsArea
    rw [List.map_map]
    refine congrArg List.sum (List.map_congr_left fun r _ => ?_)
    show (x + r.2 - (x + r.1)).toNat + 0 = r.2 - r.1
    omega
  rw [hrows] at hmask
  have hlt := card_pixels_lt h (s := bitPixels bit x y w height) (toInt16_of_mem hy hy') hne hsolid
    (by rwa [hlength]) fun p hp => by
      obtain ⟨⟨i, j⟩, hq, rfl⟩ := Finset.mem_image.mp hp
      simp only [Finset.mem_sigma, Finset.mem_range, Finset.mem_filter] at hq
      exact (hmask _).mpr ⟨i, j, by omega, by omega, hq.2.2, rfl⟩
  rw [card_bitPixels, harea] at hlt
  exact absurd hlt (Nat.lt_irrefl _)

end Region

/-! ## The region -/

theorem isBitmask_empty {h' : RegionHeap} {rgn : Region} {x y width height : Int}
    {bit : Nat → Nat → Bool} (hrgn : h'.data rgn = none)
    (hbit : ∀ i dx : Nat, i < height → dx < width → bit i dx = false) :
    IsBitmask h' rgn x y width height bit := by
  intro p
  refine iff_of_false ?_ ?_
  · rintro ⟨d, hd, -⟩
    rw [hrgn] at hd
    cases hd
  · rintro ⟨i, dx, hi, hdx, hset, -⟩
    rw [hbit i dx hi hdx] at hset
    cases hset

/--
**Bitmask regions.** The region has the pixels of the bits that are set exactly if the rows with set
bits come first and each of them has a single run.
-/
theorem isBitmask_iff (h : RegionHeap) {x y width height : Int} (data : Option (Nat → Nat))
    (hx : -32768 ≤ x) (hx' : x + width ≤ 32767) (hy : -32768 ≤ y) (hy' : y + height ≤ 32767) :
    IsBitmask (cdCreateRegionFromBitmask h x y width height data).1
        (cdCreateRegionFromBitmask h x y width height data).2 x y width height
        (bitIsSet data width) ↔
      OneRunEach (bitIsSet data width) width height := by
  have hempty (hbit : ∀ i dx : Nat, i < height → dx < width → bitIsSet data width i dx = false) :
      IsBitmask (buildRegion h (toInt16 y) []).1 (buildRegion h (toInt16 y) []).2 x y width height
          (bitIsSet data width) ↔ OneRunEach (bitIsSet data width) width height :=
    iff_of_true (isBitmask_empty rfl hbit)
      ⟨0, fun i hi => absurd hi (Nat.not_lt_zero i), fun i dx _ => hbit i dx⟩
  cases data with
  | none => exact hempty fun _ _ _ _ => rfl
  | some data =>
    unfold cdCreateRegionFromBitmask
    dsimp only
    by_cases hzero : width ≤ 0 ∨ height ≤ 0
    · rw [if_pos hzero]
      exact hempty fun i dx hi hdx => by omega
    obtain ⟨w, rfl⟩ := Int.eq_ofNat_of_zero_le (show 0 ≤ width by omega)
    obtain ⟨k, rfl⟩ := Int.eq_ofNat_of_zero_le (show 0 ≤ height by omega)
    have hrows : ((List.range k).flatMap fun i =>
        (bitmaskSpans (bitmaskBit data (((w : Int) + 7) / 8).toNat i) x w 0 none).map
          fun span => ([span], false)) =
        (allRuns (bitIsSet (some data) w) w k).map (runRow x) := by
      rw [allRuns, List.map_flatMap]
      refine List.flatMap_congr fun i _ => ?_
      have hspans := @bitmaskSpans_eq (bitmaskBit data (((w : Int) + 7) / 8).toNat i) x w 0 none hx
        (by omega) nofun
      rw [Option.map_none] at hspans
      rw [hspans, List.map_map]
      rfl
    rw [if_neg hzero, Int.toNat_natCast, Int.toNat_natCast, hrows,
      toInt16_of_mem hy (by omega)]
    constructor
    · intro hmask
      by_cases hend : y + (allRuns (bitIsSet (some data) w) w k).length ≤ 32767
      · exact oneRunEach_of_isBitmask h hx hx' hy hend hmask
      · exact absurd hmask (not_isBitmask_of_gt h hx hx' hy (by omega) (by omega))
    · exact isBitmask_of_oneRunEach h hx hx' hy hy'

/-- A byte in each of four rows: the last one has no bits. -/
def wedge : Nat → Nat := fun i => [0x3C, 0x18, 0x40, 0].getD i 0

theorem isBitmask_iff_wedge :
    IsBitmask (cdCreateRegionFromBitmask ⟨fun _ => none, 0, fun i => i⟩ 5 7 8 4 (some wedge)).1
        (cdCreateRegionFromBitmask ⟨fun _ => none, 0, fun i => i⟩ 5 7 8 4 (some wedge)).2 5 7 8 4
        (bitIsSet (some wedge) 8) ↔
      OneRunEach (bitIsSet (some wedge) 8) 8 4 :=
  isBitmask_iff _ _ (by decide) (by decide) (by decide) (by decide)

/-- One row with two runs: the second run is a row of its own. -/
theorem not_isBitmask_two_runs :
    ¬ ∀ (h : RegionHeap) (x y width height : Int) (data : Option (Nat → Nat)), -32768 ≤ x →
      x + width ≤ 32767 → -32768 ≤ y → y + height ≤ 32767 →
      IsBitmask (cdCreateRegionFromBitmask h x y width height data).1
        (cdCreateRegionFromBitmask h x y width height data).2 x y width height
        (bitIsSet data width) := by
  intro hall
  have hrow : regionRow
      (cdCreateRegionFromBitmask ⟨fun _ => none, 0, fun i => i⟩ 0 0 3 1 (some fun _ => 0xA0)).1
      (cdCreateRegionFromBitmask ⟨fun _ => none, 0, fun i => i⟩ 0 0 3 1 (some fun _ => 0xA0)).2 1 =
        [(2, 3)] := by decide +kernel
  obtain ⟨i, dx, hi, -, -, heq⟩ := (hall ⟨fun _ => none, 0, fun i => i⟩ 0 0 3 1 (some fun _ => 0xA0)
    (by decide) (by decide) (by decide) (by decide) (2, 1)).mp
      (mem_pixels.mpr ⟨(2, 3), by rw [hrow]; exact List.mem_singleton_self _, by decide, by decide⟩)
  obtain ⟨-, h1⟩ := Prod.mk.inj heq
  omega

end Nolrem.Cd
