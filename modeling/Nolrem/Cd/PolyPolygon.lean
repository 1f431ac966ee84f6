import Mathlib.Algebra.BigOperators.Group.List.Basic
import Mathlib.Algebra.Order.Ring.Int
import Mathlib.Data.List.Nodup
import Mathlib.Data.List.Range
import Mathlib.Tactic.Common

/-!
# The system call for polygons

`SysCreatePolyPolygonRegion` of `kernel/CLIPDRAW/syscall/createpolypolygonregion.c`, and of
`CdCreatePolyPolygonRegion` in `fully_pageable/polygon.c` what it reads and what it allocates. What
a call does is a list of events, without the region that it builds.
-/

namespace Nolrem.Cd.Polygon

/-! ## The code -/

/-- `MAX_POLYGONS` -/
def maxPolygons : Nat := 50

/-- `MAX_POINTS` -/
def maxPoints : Int := 50000

/-- `ENOMEM` -/
def enomem : Nat := 2

/-- `EINVAL` -/
def einval : Nat := 7

/-- The temporary blocks: the three arrays, the buffer of a scanline, the crossings of a row. -/
inductive Temp where
  | cc
  | xx
  | yy
  | scanlineX
  | intersections (y : Int)
deriving DecidableEq, Repr

inductive Event where
  | alloc (b : Temp)
  | free (b : Temp)
  | readX (i : Int)
  | readY (i : Int)
  /-- A sum of `int` or a size that does not fit. -/
  | overflow
  /-- A check, a transfer or an allocation fails. -/
  | fail
deriving DecidableEq, Repr

/--
What the user passes. `x` and `y` are what `xx` and `yy` hold, with anything outside of the blocks.
-/
structure Args where
  polygons : Nat
  counts : List Int
  x : Int → Int
  y : Int → Int
  length_eq : counts.length = polygons
  int : ∀ c ∈ counts, -2147483648 ≤ c ∧ c ≤ 2147483647

/-- How the transfers end (0 when well) and which allocations succeed. -/
structure Env where
  outOfMemory : Bool
  polyRes : Nat
  countsRes : Nat
  xRes : Nat
  yRes : Nat
  ccOk : Bool
  xxOk : Bool
  yyOk : Bool
  scanlineOk : Bool
  intersectionsOk : Int → Bool
  /-- The allocations of the region under construction. -/
  regionOk : Bool
  /-- Something is written through one of the missing pointers. -/
  faults : Bool
  /-- The address of the handle, 0 when there is no memory for it. -/
  uregion : Nat

/-- The result is `none` when the call does not return, or nothing is known of it. -/
structure Outcome where
  events : List Event
  result : Option Nat
  lastError : Option Nat

/-- `AllocHeap`; nothing is allocated when it fails. -/
def allocHeap (b : Temp) (ok : Bool) : List Event := if ok then [.alloc b] else [.fail]

/-- `FreeHeap`, which ignores a null pointer. -/
def freeHeap (b : Temp) (ok : Bool) : List Event := if ok then [.free b] else []

/-- Runs `f` for each polygon with at least three points, with the place where it begins. -/
def forPolygons (f : Int → Nat → List Event) : Int → List Int → List Event
  | _, [] => []
  | offset, c :: cs => (if 3 ≤ c then f offset c.toNat else []) ++ forPolygons f (offset + c) cs

/-- The reads of the first pass. -/
def rangeReads (offset : Int) (count : Nat) : List Event :=
  (List.range count).map fun (j : Nat) => .readY (offset + j)

/-- The reads of a row: both ends of each edge. -/
def edgeReads (offset : Int) (count : Nat) : List Event :=
  (List.range count).flatMap fun (i : Nat) =>
    let next : Nat := (i + 1) % count
    [.readX (offset + i), .readY (offset + i), .readX (offset + next), .readY (offset + next)]

/-- `y_min` and `y_max` after one more point. -/
def widen (r : Int × Int) (y : Int) : Int × Int :=
  (if y < r.1 then y else r.1, if y > r.2 then y else r.2)

/-- The first pass. -/
def yRange (y : Int → Int) : Int × Int → Int → List Int → Int × Int
  | r, _, [] => r
  | r, offset, c :: cs =>
    let r :=
      if 3 ≤ c then (List.range c.toNat).foldl (fun r (j : Nat) => widen r (y (offset + j))) r
      else r
    yRange y r (offset + c) cs

/-- The rows that `CdCreatePolyPolygonRegion` goes through. -/
def rows (a : Args) : List Int :=
  let r := yRange a.y (32767, -32768) 0 a.counts
  (List.range (r.2 - r.1).toNat).map fun (k : Nat) => r.1 + k

/-- What `CdCreatePolyPolygonRegion` does in one row. -/
def rowEvents (a : Args) (e : Env) (y : Int) : List Event :=
  allocHeap (.intersections y) (e.intersectionsOk y) ++ forPolygons edgeReads 0 a.counts ++
    freeHeap (.intersections y) (e.intersectionsOk y)

/-- `CdCreatePolyPolygonRegion`, from `BuildNewRegion` on. -/
def buildEvents (a : Args) (e : Env) : List Event :=
  (if e.regionOk then [] else [.fail]) ++ allocHeap .scanlineX e.scanlineOk ++
    (rows a).flatMap (rowEvents a e) ++ freeHeap .scanlineX e.scanlineOk

/-- `CdCreatePolyPolygonRegion`; its allocations are not checked. -/
def cdCreatePolyPolygonRegion (a : Args) (e : Env) : List Event :=
  if a.polygons = 0 then []
  else
    forPolygons rangeReads 0 a.counts ++ if rows a = [] then [] else buildEvents a e

/-- `KeSetLastUserError(error); return 0;` -/
def Outcome.failed (events : List Event) (error : Nat) : Outcome :=
  { events := events ++ [.fail], result := some 0, lastError := some error }

/-- `i` is an index at which `xx` or `yy` is read. -/
def Reads (events : List Event) (i : Int) : Prop := .readX i ∈ events ∨ .readY i ∈ events

structure Safe (a : Args) (o : Outcome) : Prop where
  noOverflow : .overflow ∉ o.events
  inside : ∀ i, Reads o.events i → 0 ≤ i ∧ i < a.counts.sum
  freedOnce : ∀ b, o.events.count (.alloc b) ≤ 1 ∧
    o.events.count (.free b) = o.events.count (.alloc b)
  failZero : .fail ∈ o.events → o.result = some 0

/-- The counts are copied and looked at. -/
def Counted (a : Args) (e : Env) : Prop :=
  e.outOfMemory = false ∧ 1 ≤ a.polygons ∧ a.polygons ≤ maxPolygons ∧ e.polyRes = 0 ∧
    e.ccOk = true ∧ e.countsRes = 0

/-- No first part of the counts has more points than are allowed. -/
def Few (counts : List Int) : Prop := ∀ p, p <+: counts → p.sum ≤ maxPoints

/-- The points are copied too, and the region is built. -/
def Built (a : Args) (e : Env) : Prop :=
  Counted a e ∧ Few a.counts ∧ a.counts.sum ≠ 0 ∧ e.xxOk = true ∧ e.yyOk = true ∧ e.xRes = 0 ∧
    e.yRes = 0

/-- `Few` for the rest of the counts, after the sum `s`. -/
def FewFrom (s : Int) (cs : List Int) : Prop := ∀ p, p <+: cs → s + p.sum ≤ maxPoints

/-- No overflow in the rest of the loop. -/
def FitsFrom (s : Int) (cs : List Int) : Prop :=
  ∀ p c, p ++ [c] <+: cs → FewFrom s p →
    -2147433647 ≤ c ∧ (s + p.sum + c ≤ maxPoints → -2147483648 ≤ s + p.sum + c)

theorem fewFrom_nil {s : Int} (hs : s ≤ maxPoints) : FewFrom s [] := by
  intro p hp
  rw [List.prefix_nil.mp hp]
  simpa using hs

theorem fewFrom_cons {s c : Int} {cs : List Int} (hs : s ≤ maxPoints) :
    FewFrom s (c :: cs) ↔ FewFrom (s + c) cs := by
  constructor
  · intro h p hp
    have := h (c :: p) (List.cons_prefix_cons.mpr ⟨rfl, hp⟩)
    rwa [List.sum_cons, ← Int.add_assoc] at this
  · intro h p hp
    cases p with
    | nil => simpa using hs
    | cons d p =>
      obtain ⟨rfl, htail⟩ := List.cons_prefix_cons.mp hp
      rw [List.sum_cons, ← Int.add_assoc]
      exact h p htail

theorem FewFrom.le {s : Int} {cs : List Int} (h : FewFrom s cs) : s ≤ maxPoints := by
  simpa using h [] List.nil_prefix

/-- One round of the loop, and the rest when the count is accepted. -/
theorem fitsFrom_cons {s c : Int} {cs : List Int} (hs : s ≤ maxPoints) :
    FitsFrom s (c :: cs) ↔
      (-2147433647 ≤ c ∧ (s + c ≤ maxPoints → -2147483648 ≤ s + c)) ∧
        (s + c ≤ maxPoints → FitsFrom (s + c) cs) := by
  constructor
  · intro h
    refine ⟨?_, fun hsc p d hp hfew => ?_⟩
    · simpa using h [] c (List.cons_prefix_cons.mpr ⟨rfl, List.nil_prefix⟩) (fewFrom_nil hs)
    · have := h (c :: p) d (List.cons_prefix_cons.mpr ⟨rfl, hp⟩) ((fewFrom_cons hs).mpr hfew)
      rwa [List.sum_cons, ← Int.add_assoc] at this
  · rintro ⟨hfirst, hrest⟩ p d hp hfew
    cases p with
    | nil =>
      obtain ⟨rfl, -⟩ := List.cons_prefix_cons.mp hp
      simpa using hfirst
    | cons b p =>
      obtain ⟨rfl, htail⟩ := List.cons_prefix_cons.mp hp
      have hfew := (fewFrom_cons hs).mp hfew
      rw [List.sum_cons, ← Int.add_assoc]
      exact hrest hfew.le p d htail hfew

theorem mem_forPolygons {f : Int → Nat → List Event} {ev : Event} {cs : List Int} {offset : Int} :
    ev ∈ forPolygons f offset cs ↔
      ∃ p c rest, cs = p ++ c :: rest ∧ 3 ≤ c ∧ ev ∈ f (offset + p.sum) c.toNat := by
  induction cs generalizing offset with
  | nil =>
    rw [forPolygons]
    simp
  | cons d cs ih =>
    rw [forPolygons, List.mem_append, ih]
    constructor
    · rintro (h | ⟨p, c, rest, rfl, hc, hev⟩)
      · by_cases hd : 3 ≤ d
        · rw [if_pos hd] at h
          exact ⟨[], d, cs, rfl, hd, by simpa using h⟩
        · rw [if_neg hd] at h
          cases h
      · refine ⟨d :: p, c, rest, rfl, hc, ?_⟩
        rwa [List.sum_cons, ← Int.add_assoc]
    · rintro ⟨p, c, rest, heq, hc, hev⟩
      cases p with
      | nil =>
        obtain ⟨rfl, rfl⟩ := List.cons.inj heq
        rw [if_pos hc]
        exact Or.inl (by simpa using hev)
      | cons b p =>
        obtain ⟨rfl, rfl⟩ := List.cons.inj heq
        refine Or.inr ⟨p, c, rest, rfl, hc, ?_⟩
        rwa [List.sum_cons, ← Int.add_assoc] at hev

/-- Neither of the passes does anything but read. -/
def OnlyReads (offset : Int) (count : Nat) (ev : Event) : Prop :=
  ∃ i, offset ≤ i ∧ i < offset + count ∧ (ev = .readX i ∨ ev = .readY i)

theorem onlyReads_range {offset : Int} {count : Nat} {ev : Event}
    (h : ev ∈ rangeReads offset count) : OnlyReads offset count ev := by
  obtain ⟨j, hj, rfl⟩ := List.mem_map.mp h
  have hlt := List.mem_range.mp hj
  exact ⟨offset + j, by omega, by omega, Or.inr rfl⟩

theorem onlyReads_edge {offset : Int} {count : Nat} {ev : Event}
    (h : ev ∈ edgeReads offset count) : OnlyReads offset count ev := by
  obtain ⟨j, hj, hev⟩ := List.mem_flatMap.mp h
  have hlt := List.mem_range.mp hj
  have hnext : (j + 1) % count < count := Nat.mod_lt _ (by omega)
  simp only [List.mem_cons, List.not_mem_nil, or_false] at hev
  rcases hev with rfl | rfl | rfl | rfl
  · exact ⟨offset + j, by omega, by omega, Or.inl rfl⟩
  · exact ⟨offset + j, by omega, by omega, Or.inr rfl⟩
  · exact ⟨offset + ((j + 1) % count : Nat), by omega, by omega, Or.inl rfl⟩
  · exact ⟨offset + ((j + 1) % count : Nat), by omega, by omega, Or.inr rfl⟩

section Built

variable {a : Args} {e : Env} {b : Temp}

/-- Where the polygons that are drawn lie. -/
def Drawn (counts : List Int) (i : Int) : Prop :=
  ∃ p c rest, counts = p ++ c :: rest ∧ 3 ≤ c ∧ p.sum ≤ i ∧ i < p.sum + c

theorem Drawn.of_mem {f : Int → Nat → List Event}
    (hf : ∀ offset count ev, ev ∈ f offset count → OnlyReads offset count ev) {i : Int}
    (h : .readX i ∈ forPolygons f 0 a.counts ∨ .readY i ∈ forPolygons f 0 a.counts) :
    Drawn a.counts i := by
  obtain ⟨ev, hev, hi⟩ : ∃ ev, ev ∈ forPolygons f 0 a.counts ∧ (ev = .readX i ∨ ev = .readY i) :=
    h.elim (fun h => ⟨_, h, Or.inl rfl⟩) fun h => ⟨_, h, Or.inr rfl⟩
  obtain ⟨p, c, rest, heq, hc, hmem⟩ := mem_forPolygons.mp hev
  obtain ⟨k, h1, h2, hk⟩ := hf _ _ _ hmem
  have hik : k = i := by
    rcases hi with rfl | rfl <;> rcases hk with hk | hk <;> cases hk <;> rfl
  exact ⟨p, c, rest, heq, hc, by omega, by omega⟩

/-- The first pass already reads each point of each polygon. -/
theorem readY_of_drawn {i : Int} (h : Drawn a.counts i) :
    .readY i ∈ forPolygons rangeReads 0 a.counts := by
  obtain ⟨p, c, rest, heq, hc, h1, h2⟩ := h
  refine mem_forPolygons.mpr ⟨p, c, rest, heq, hc, List.mem_map.mpr ⟨(i - p.sum).toNat, ?_, ?_⟩⟩
  · rw [List.mem_range]
    omega
  · congr 1
    omega

theorem mem_allocHeap {ev : Event} {ok : Bool} :
    ev ∈ allocHeap b ok ↔ (ok = true ∧ ev = .alloc b) ∨ (ok = false ∧ ev = .fail) := by
  cases ok <;> simp [allocHeap]

theorem mem_freeHeap {ev : Event} {ok : Bool} :
    ev ∈ freeHeap b ok ↔ ok = true ∧ ev = .free b := by
  cases ok <;> simp [freeHeap]

theorem mem_rowEvents {ev : Event} {y : Int} :
    ev ∈ rowEvents a e y ↔
      ev ∈ allocHeap (.intersections y) (e.intersectionsOk y) ∨
        ev ∈ forPolygons edgeReads 0 a.counts ∨
          ev ∈ freeHeap (.intersections y) (e.intersectionsOk y) := by
  rw [rowEvents, List.mem_append, List.mem_append, or_assoc]

theorem mem_buildEvents {ev : Event} :
    ev ∈ buildEvents a e ↔
      (e.regionOk = false ∧ ev = .fail) ∨ ev ∈ allocHeap .scanlineX e.scanlineOk ∨
        (∃ y ∈ rows a, ev ∈ rowEvents a e y) ∨ ev ∈ freeHeap .scanlineX e.scanlineOk := by
  rw [buildEvents, List.mem_append, List.mem_append, List.mem_append, List.mem_flatMap, or_assoc,
    or_assoc]
  cases e.regionOk <;> simp

/-- What an event of `CdCreatePolyPolygonRegion` can be. -/
theorem mem_cdCreate (h1 : 1 ≤ a.polygons) {ev : Event} :
    ev ∈ cdCreatePolyPolygonRegion a e ↔
      ev ∈ forPolygons rangeReads 0 a.counts ∨ (rows a ≠ [] ∧ ev ∈ buildEvents a e) := by
  rw [cdCreatePolyPolygonRegion, if_neg (by omega), List.mem_append]
  by_cases hr : rows a = []
  · simp [hr]
  · simp [hr]

theorem reads_cdCreate (h1 : 1 ≤ a.polygons) {i : Int} :
    Reads (cdCreatePolyPolygonRegion a e) i ↔ Drawn a.counts i := by
  constructor
  · unfold Reads
    rw [mem_cdCreate h1, mem_cdCreate h1, mem_buildEvents, mem_buildEvents]
    simp only [mem_allocHeap, mem_freeHeap, mem_rowEvents, reduceCtorEq, and_false, or_false,
      false_or]
    rintro ((h | ⟨-, y, -, h⟩) | (h | ⟨-, y, -, h⟩))
    · exact Drawn.of_mem (fun _ _ _ => onlyReads_range) (Or.inl h)
    · exact Drawn.of_mem (fun _ _ _ => onlyReads_edge) (Or.inl h)
    · exact Drawn.of_mem (fun _ _ _ => onlyReads_range) (Or.inr h)
    · exact Drawn.of_mem (fun _ _ _ => onlyReads_edge) (Or.inr h)
  · intro h
    exact Or.inr ((mem_cdCreate h1).mpr (Or.inl (readY_of_drawn h)))

/-- The blocks of `CdCreatePolyPolygonRegion`, and not those of the system call. -/
def Temp.inner : Temp → Bool
  | .scanlineX => true
  | .intersections _ => true
  | _ => false

/-- Events of a call that fails before the region is built. -/
structure Quiet (evs : List Event) : Prop where
  noOverflow : .overflow ∉ evs
  noReads : ∀ i, ¬ Reads evs i
  freedOnce : ∀ b, evs.count (.alloc b) ≤ 1 ∧ evs.count (.free b) = evs.count (.alloc b)

theorem Quiet.failed {evs : List Event} (h : Quiet evs) (error : Nat) :
    Safe a (.failed evs error) := by
  refine ⟨?_, fun i hi => absurd ?_ (h.noReads i), fun b => ?_, fun _ => rfl⟩
  · simpa [Outcome.failed] using h.noOverflow
  · simpa [Outcome.failed, Reads] using hi
  · simpa [Outcome.failed, List.count_append] using h.freedOnce b

theorem FitsFrom.low {cs : List Int} : ∀ {s : Int}, FitsFrom s cs → FewFrom s cs →
    -2147483648 ≤ s → -2147483648 ≤ s + cs.sum := by
  induction cs with
  | nil =>
    intro s _ _ hlow
    simpa using hlow
  | cons c cs ih =>
    intro s hfit hfew hlow
    have hs := hfew.le
    obtain ⟨⟨-, hsc⟩, hrest⟩ := (fitsFrom_cons hs).mp hfit
    have hfew := (fewFrom_cons hs).mp hfew
    rw [List.sum_cons, ← Int.add_assoc]
    exact ih (hrest hfew.le) hfew (hsc hfew.le)

end Built

end Nolrem.Cd.Polygon
