import Nolrem.Cd.DynamicArray

/-!
# Paths

The paths of `kernel/CLIPDRAW/fully_pageable/path.c`: `CdCreatePath`, `CdDrawPath`, `CdLiftPath`,
and what `CdClosePath` passes on. No allocation fails.
-/

namespace Nolrem.Cd

open Nolrem.Lib

/-! ## The code -/

/-- The bytes of a `struct path_entry`. -/
def entryBytes (x y : Int) : List Nat := intBytes x ++ intBytes y

/-- `arr[i].x` and `arr[i].y` -/
def entryOf (bytes : List Nat) : Int × Int := (intOf (bytes.take 4), intOf (bytes.drop 4))

/-- `struct path`, with the arrays that `data` and `count_data` point to. -/
structure Path where
  numPointsTotal : Int
  x : Int
  y : Int
  data : DynamicArray
  countData : DynamicArray
  polygons : Int
  countTotalSoFar : Int
  scaleX : Int
  scaleY : Int
  transX : Int
  transY : Int

/-- `CdCreatePath` -/
def cdCreatePath (e : Allocator) (startX startY : Int) : Option Path := do
  let data ← createDynamicArray e 8 8
  let countData ← createDynamicArray e 4 4
  some {
    numPointsTotal := 1
    x := startX
    y := startY
    data
    countData
    polygons := 1
    countTotalSoFar := 0
    scaleX := 65536
    scaleY := 65536
    transX := 0
    transY := 0 }

/-- `CdDrawPath`, `none` if it has not returned after `fuel` rounds of a loop. -/
def cdDrawPath (e : Allocator) (fuel : Nat) (p : Path) (x y : Int) : Option Path := do
  let data ← insertDynamicArray e fuel p.data (entryBytes p.x p.y)
  some { p with data, x, y, numPointsTotal := p.numPointsTotal + 1 }

/-- `CdLiftPath` -/
def cdLiftPath (e : Allocator) (fuel : Nat) (p : Path) (startX startY : Int) : Option Path := do
  let count := p.numPointsTotal - p.countTotalSoFar
  let p ← cdDrawPath e fuel p startX startY
  let countData ← insertDynamicArray e fuel p.countData (intBytes count)
  some { p with
    countData
    countTotalSoFar := p.numPointsTotal
    polygons := p.polygons + 1 }

/-- `Transform` -/
def transform (pos scale trans : Int) : Int :=
  (BitVec.ofInt 32 ((pos * scale).tdiv 256 + trans)).toInt

/-- What `CdCreatePolyPolygonRegion` is called with, except for the mode. -/
structure PolyArgs where
  xs : List Int
  ys : List Int
  counts : List Int
  polygons : Int

/-- `CdClosePath` up to the call of `CdCreatePolyPolygonRegion`, which it may not make. -/
def closeArgs (p : Path) : Option PolyArgs :=
  if p.numPointsTotal < 3 then none
  else
    let counts := (List.range (p.polygons - 1).toNat).map fun i => intOf (p.countData.elem i)
    let arr := (List.range (p.numPointsTotal - 1).toNat).map fun i => entryOf (p.data.elem i)
    some {
      xs := arr.map (fun q => transform q.1 p.scaleX p.transX) ++ [transform p.x p.scaleX p.transX]
      ys := arr.map (fun q => transform q.2 p.scaleY p.transY) ++ [transform p.y p.scaleY p.transY]
      counts := counts ++ [p.numPointsTotal - p.countTotalSoFar + 1]
      polygons := p.polygons }

/-! ## The points -/

/-- The points in the array. -/
def Path.stored (p : Path) : List (Int × Int) := p.data.elems.map entryOf

/-- All points, with the current one last. -/
def Path.points (p : Path) : List (Int × Int) := p.stored ++ [(p.x, p.y)]

/-- An array of elements of `size` bytes that can be used. -/
structure DynamicArray.Sound (da : DynamicArray) (size : Nat) : Prop where
  allocated : da.allocated < 65536
  dataSize : da.dataSize = size
  rep : ∃ b, Rep da da.elems b

theorem entryOf_entryBytes {x y : Int} (hx : FitsInt x) (hy : FitsInt y) :
    entryOf (entryBytes x y) = (x, y) := by
  have hlen : (intBytes x).length = 4 := rfl
  unfold entryOf entryBytes
  rw [List.take_left' hlen, List.drop_left' hlen, intOf_intBytes hx, intOf_intBytes hy]

section Draw

variable {e : Allocator} {fuel : Nat} {da da' : DynamicArray} {p p' : Path} {x y : Int}

/-- An element is appended. -/
theorem DynamicArray.Sound.insert {size : Nat} (h : da.Sound size) {d : List Nat}
    (hd : d.length = size) (hr : insertDynamicArray e fuel da d = some da') :
    da'.Sound size ∧ da'.elems = da.elems ++ [d] ∧ da'.used = da.used + 1 ∧
      da'.used ≤ da'.allocated ∧ ∃ k, da'.allocated = da.allocated * 2 ^ k % 65536 := by
  obtain ⟨⟨b, hb⟩, hle, hlt, hds, hk⟩ :=
    insertDynamicArray_spec h.allocated h.rep (hd.trans h.dataSize.symm) hr
  have helems := hb.elems
  refine ⟨⟨hlt, hds.trans h.dataSize, b, helems ▸ hb⟩, helems, ?_, hle, hk⟩
  rw [hb.used, List.length_append, List.length_singleton, da.length_elems]

/-- What `CdDrawPath` does to a path. -/
theorem cdDrawPath_spec (h : p.data.Sound 8) (hx : FitsInt p.x) (hy : FitsInt p.y)
    (hr : cdDrawPath e fuel p x y = some p') :
    ∃ data, p' = { p with data, x, y, numPointsTotal := p.numPointsTotal + 1 } ∧
      insertDynamicArray e fuel p.data (entryBytes p.x p.y) = some data ∧ data.Sound 8 ∧
      data.used = p.data.used + 1 ∧ p'.points = p.points ++ [(x, y)] := by
  obtain ⟨data, hdata, heq⟩ := Option.bind_eq_some_iff.mp hr
  obtain rfl := Option.some.inj heq
  obtain ⟨hsound, helems, hused, -, -⟩ := h.insert (d := entryBytes p.x p.y) rfl hdata
  refine ⟨data, rfl, hdata, hsound, hused, ?_⟩
  show data.elems.map entryOf ++ [(x, y)] = p.data.elems.map entryOf ++ [(p.x, p.y)] ++ [(x, y)]
  rw [helems, List.map_append, List.map_singleton, entryOf_entryBytes hx hy]

end Draw

/-! ## Calls -/

/-- A call that adds a point to a path. -/
inductive PathCall where
  | draw (x y : Int)
  | lift (startX startY : Int)
deriving DecidableEq, Repr

def PathCall.point : PathCall → Int × Int
  | draw x y => (x, y)
  | lift x y => (x, y)

def PathCall.run (e : Allocator) (fuel : Nat) (p : Path) : PathCall → Option Path
  | draw x y => cdDrawPath e fuel p x y
  | lift x y => cdLiftPath e fuel p x y

/-- The calls in order. -/
def runCalls (e : Allocator) (fuel : Nat) (p : Path) (calls : List PathCall) : Option Path :=
  calls.foldlM (fun p c => c.run e fuel p) p

/-- `CdCreatePath`, and then the calls. -/
def makePath (e : Allocator) (fuel : Nat) (start : Int × Int) (calls : List PathCall) :
    Option Path :=
  (cdCreatePath e start.1 start.2).bind (runCalls e fuel · calls)

/-- The sub-polygons that were lifted from, and the current one. -/
structure Strokes where
  lifted : List (List (Int × Int))
  current : List (Int × Int)

def Strokes.add (s : Strokes) : PathCall → Strokes
  | .draw x y => { s with current := s.current ++ [(x, y)] }
  | .lift x y => { lifted := s.lifted ++ [s.current], current := [(x, y)] }

/-- The points of all of them. -/
def Strokes.points (s : Strokes) : List (Int × Int) := s.lifted.flatten ++ s.current

theorem Strokes.points_add (s : Strokes) (c : PathCall) :
    (s.add c).points = s.points ++ [c.point] := by
  cases c <;> simp [Strokes.points, Strokes.add, PathCall.point]

theorem Strokes.points_foldl (s : Strokes) (calls : List PathCall) :
    (calls.foldl Strokes.add s).points = s.points ++ calls.map PathCall.point := by
  induction calls generalizing s with
  | nil => exact (List.append_nil _).symm
  | cons c calls ih => rw [List.foldl_cons, ih, points_add, List.append_assoc]; rfl

/-- The sub-polygons that the calls draw. -/
def strokes (start : Int × Int) (calls : List PathCall) : Strokes :=
  calls.foldl Strokes.add ⟨[], [start]⟩

/-- What `CdLiftPath` counts: all points of the first sub-polygon, all but one of the others. -/
def liftCounts : List (List (Int × Int)) → List Int
  | [] => []
  | f :: fs => (f.length : Int) :: fs.map fun g => (g.length : Int) - 1

/-- What is known of a path with these sub-polygons. -/
structure Path.Traces (p : Path) (s : Strokes) : Prop where
  data : p.data.Sound 8
  countData : p.countData.Sound 4
  usedIn : p.data.used ≤ p.data.allocated
  fewer : p.countData.used ≤ p.data.used
  /-- The capacities have not been doubled until nothing is left of them. -/
  capacity : p.data.OnWay 8 12 ∧ p.countData.OnWay 4 13
  fits : FitsInt p.x ∧ FitsInt p.y
  points : p.points = s.points
  counts : p.countData.elems = (liftCounts s.lifted).map intBytes
  total : p.numPointsTotal = s.points.length
  soFar : p.countTotalSoFar =
    if s.lifted = [] then (0 : Int) else (s.lifted.flatten.length : Int) + 1
  polygons : p.polygons = s.lifted.length + 1
  /-- What `CdCreatePath` sets. -/
  scale : (p.scaleX = 65536 ∧ p.scaleY = 65536) ∧ p.transX = 0 ∧ p.transY = 0


theorem liftCounts_append (l : List (List (Int × Int))) (c : List (Int × Int)) :
    liftCounts (l ++ [c]) =
      liftCounts l ++ [if l = [] then (c.length : Int) else (c.length : Int) - 1] := by
  cases l with
  | nil => rfl
  | cons f fs =>
    rw [if_neg (List.cons_ne_nil f fs)]
    simp [liftCounts]

section Calls

variable {e : Allocator} {fuel : Nat} {p p' : Path} {s : Strokes} {c : PathCall}

theorem Path.length_points (p : Path) : p.points.length = p.data.used + 1 := by
  rw [Path.points, List.length_append, Path.stored, List.length_map, DynamicArray.length_elems]
  rfl

/-- What the number of points is for `CdLiftPath`. -/
theorem Path.Traces.count (h : p.Traces s) :
    p.numPointsTotal - p.countTotalSoFar =
      if s.lifted = [] then (s.current.length : Int) else (s.current.length : Int) - 1 := by
  rw [h.total, h.soFar, Strokes.points, List.length_append]
  by_cases hnil : s.lifted = []
  · rw [if_pos hnil, if_pos hnil, hnil]
    simp
  · rw [if_neg hnil, if_neg hnil]
    omega

theorem Path.Traces.used_le (h : p.Traces s) : p.data.used ≤ 32768 := by
  obtain ⟨k, -, hk⟩ := h.capacity.1
  exact Nat.le_trans h.usedIn (hk ▸ capacity_of_eight k)

/-- A capacity that is not 0 has not been doubled too often. -/
theorem DynamicArray.OnWay.insert {da da' : DynamicArray} {a m : Nat} (h : da.OnWay a m)
    (hzero : a * 2 ^ (m + 1) % 65536 = 0) (hused : da'.used = da.used + 1)
    (hle : da'.used ≤ da'.allocated)
    (hal : ∃ k, da'.allocated = da.allocated * 2 ^ k % 65536) : da'.OnWay a m := by
  obtain ⟨j, -, hj⟩ := h
  obtain ⟨k, hk⟩ := hal
  rw [hj, Nat.mod_mul_mod, Nat.mul_assoc, ← Nat.pow_add] at hk
  refine ⟨j + k, Nat.le_of_not_lt fun hlt => ?_, hk⟩
  obtain ⟨i, hi⟩ := Nat.exists_eq_add_of_le hlt
  rw [hi, Nat.pow_add, ← Nat.mul_assoc, Nat.mul_mod, hzero, Nat.zero_mul, Nat.zero_mod] at hk
  omega

/-- A step of the calls. -/
theorem Path.Traces.step (h : p.Traces s) (hc : FitsInt c.point.1 ∧ FitsInt c.point.2)
    (hr : c.run e fuel p = some p') :
    p'.Traces (s.add c) ∧ p'.data.used = p.data.used + 1 := by
  cases c with
  | draw x y =>
    obtain ⟨data, rfl, hins, hdata, hused, hpoints⟩ := cdDrawPath_spec h.data h.fits.1 h.fits.2 hr
    obtain ⟨-, -, -, hle, hal⟩ := h.data.insert (d := entryBytes p.x p.y) rfl hins
    refine ⟨⟨hdata, h.countData, hle, ?_, ⟨h.capacity.1.insert rfl hused hle hal, h.capacity.2⟩,
      hc, ?_, h.counts, ?_, h.soFar, h.polygons, h.scale⟩, hused⟩
    · exact Nat.le_trans h.fewer (hused ▸ Nat.le_succ _)
    · rw [hpoints, h.points, Strokes.points_add]
      rfl
    · show p.numPointsTotal + 1 = _
      rw [h.total, Strokes.points_add, List.length_append]
      rfl
  | lift x y =>
    obtain ⟨mid, hmid, hr⟩ := Option.bind_eq_some_iff.mp hr
    obtain ⟨countData, hcount, heq⟩ := Option.bind_eq_some_iff.mp hr
    obtain rfl := Option.some.inj heq
    obtain ⟨data, rfl, hins, hdata, hused, hpoints⟩ := cdDrawPath_spec h.data h.fits.1 h.fits.2 hmid
    obtain ⟨-, -, -, hle, hal⟩ := h.data.insert (d := entryBytes p.x p.y) rfl hins
    obtain ⟨hcd, hcelems, hcused, hcle, hcal⟩ := h.countData.insert rfl hcount
    have hpts : s.points ++ [(x, y)] = (s.add (.lift x y)).points :=
      (s.points_add (.lift x y)).symm
    refine ⟨⟨hdata, hcd, hle, ?_, ⟨h.capacity.1.insert rfl hused hle hal,
      h.capacity.2.insert rfl hcused hcle hcal⟩, hc, ?_, ?_, ?_, ?_, ?_, h.scale⟩, hused⟩
    · show countData.used ≤ data.used
      rw [hcused, hused]
      exact Nat.succ_le_succ h.fewer
    · show data.elems.map entryOf ++ [(x, y)] = _
      rw [← hpts, ← h.points]
      exact hpoints
    · rw [hcelems, h.counts, h.count]
      show _ = (liftCounts (s.lifted ++ [s.current])).map intBytes
      rw [liftCounts_append, List.map_append]
      rfl
    · show p.numPointsTotal + 1 = _
      rw [h.total, ← hpts, List.length_append]
      rfl
    · show p.numPointsTotal + 1 = if s.lifted ++ [s.current] = [] then 0 else _
      rw [if_neg (by simp), h.total]
      simp [Strokes.points, Strokes.add]
    · show p.polygons + 1 = _
      rw [h.polygons]
      simp [Strokes.add]

/-- A call returns as long as there is room for its point. -/
theorem Path.Traces.ends (h : p.Traces s) (hroom : p.data.used < 32768) :
    ∃ p', c.run e 14 p = some p' := by
  obtain ⟨data, hdata, -⟩ := insertDynamicArray_ends (e := e) (d := entryBytes p.x p.y)
    (show 12 < 14 by decide) h.data.allocated h.capacity.1 (by omega)
  have hcroom := h.fewer
  obtain ⟨countData, hcount, -⟩ := insertDynamicArray_ends (e := e)
    (d := intBytes (p.numPointsTotal - p.countTotalSoFar)) (show 13 < 14 by decide)
    h.countData.allocated h.capacity.2 (by omega)
  have hdraw (x y : Int) : cdDrawPath e 14 p x y =
      some { p with data, x, y, numPointsTotal := p.numPointsTotal + 1 } := by
    unfold cdDrawPath
    rw [hdata]
    rfl
  cases c with
  | draw x y => exact ⟨_, hdraw x y⟩
  | lift x y =>
    refine ⟨{ p with
      data
      x
      y
      numPointsTotal := p.numPointsTotal + 1
      countData
      countTotalSoFar := p.numPointsTotal + 1
      polygons := p.polygons + 1 }, ?_⟩
    show cdLiftPath e 14 p x y = _
    unfold cdLiftPath
    rw [hdraw]
    simp only [Option.bind_eq_bind, Option.bind_some, hcount]

end Calls

/-! ## Runs -/

section Runs

variable {e : Allocator} {fuel : Nat} {p p' : Path} {s : Strokes} {calls : List PathCall}
  {start : Int × Int}

/-- The coordinates are those of an `int`. -/
def CallsFit (start : Int × Int) (calls : List PathCall) : Prop :=
  (FitsInt start.1 ∧ FitsInt start.2) ∧ ∀ c ∈ calls, FitsInt c.point.1 ∧ FitsInt c.point.2

theorem runCalls_spec (h : p.Traces s)
    (hfit : ∀ c ∈ calls, FitsInt c.point.1 ∧ FitsInt c.point.2)
    (hr : runCalls e fuel p calls = some p') :
    p'.Traces (calls.foldl Strokes.add s) ∧ p'.data.used = p.data.used + calls.length := by
  induction calls generalizing p s with
  | nil =>
    obtain rfl := Option.some.inj hr
    exact ⟨h, rfl⟩
  | cons c calls ih =>
    obtain ⟨hc, hrest⟩ := List.forall_mem_cons.mp hfit
    obtain ⟨mid, hmid, hr⟩ := Option.bind_eq_some_iff.mp hr
    obtain ⟨htraces, hused⟩ := h.step hc hmid
    obtain ⟨htraces', hused'⟩ := ih htraces hrest hr
    exact ⟨htraces', by rw [hused', hused, List.length_cons]; omega⟩

theorem runCalls_ends (h : p.Traces s)
    (hfit : ∀ c ∈ calls, FitsInt c.point.1 ∧ FitsInt c.point.2)
    (hroom : p.data.used + calls.length ≤ 32768) :
    ∃ p', runCalls e 14 p calls = some p' := by
  induction calls generalizing p s with
  | nil => exact ⟨p, rfl⟩
  | cons c calls ih =>
    obtain ⟨hc, hrest⟩ := List.forall_mem_cons.mp hfit
    rw [List.length_cons] at hroom
    obtain ⟨mid, hmid⟩ := h.ends (e := e) (c := c) (by omega)
    obtain ⟨htraces, hused⟩ := h.step hc hmid
    obtain ⟨p', hrun⟩ := ih htraces hrest (by omega)
    exact ⟨p', Option.bind_eq_some_iff.mpr ⟨mid, hmid, hrun⟩⟩

/-- Calls return if and only if there is room for their points. -/
theorem runCalls_iff (h : p.Traces s)
    (hfit : ∀ c ∈ calls, FitsInt c.point.1 ∧ FitsInt c.point.2) (e : Allocator) :
    (∃ fuel p', runCalls e fuel p calls = some p') ↔ p.data.used + calls.length ≤ 32768 := by
  constructor
  · rintro ⟨fuel, p', hr⟩
    obtain ⟨htraces, hused⟩ := runCalls_spec h hfit hr
    rw [← hused]
    exact htraces.used_le
  · exact fun hroom => ⟨14, runCalls_ends h hfit hroom⟩

theorem cdCreatePath_spec {x y : Int} (hx : FitsInt x) (hy : FitsInt y) :
    ∃ p, cdCreatePath e x y = some p ∧ p.Traces ⟨[], [(x, y)]⟩ ∧ p.data.used = 0 := by
  obtain ⟨data, hdata, ⟨b, hb⟩, hal, hds⟩ :=
    createDynamicArray_spec (e := e) (show 1 ≤ 8 by decide) (by decide)
      (show 8 * max 8 1 ≤ 2147483647 by decide)
  obtain ⟨countData, hcount, ⟨b', hb'⟩, hal', hds'⟩ :=
    createDynamicArray_spec (e := e) (show 1 ≤ 4 by decide) (by decide)
      (show 4 * max 4 1 ≤ 2147483647 by decide)
  have hal8 : data.allocated = 8 := hal
  have hal4 : countData.allocated = 4 := hal'
  have hused : data.used = 0 := hb.used
  have hcused : countData.used = 0 := hb'.used
  unfold cdCreatePath
  rw [hdata, hcount]
  refine ⟨_, rfl, ⟨⟨?_, hds, b, ?_⟩, ⟨?_, hds', b', ?_⟩, ?_, ?_, ⟨⟨0, by decide, hal⟩, 0, by decide,
    hal'⟩, ⟨hx, hy⟩, ?_, hb'.elems, rfl, rfl, rfl, ⟨rfl, rfl⟩, rfl, rfl⟩, hused⟩
  · show data.allocated < 65536
    rw [hal8]
    decide
  · show Rep data data.elems b
    rw [hb.elems]
    exact hb
  · show countData.allocated < 65536
    rw [hal4]
    decide
  · show Rep countData countData.elems b'
    rw [hb'.elems]
    exact hb'
  · show data.used ≤ data.allocated
    rw [hused]
    exact Nat.zero_le _
  · show countData.used ≤ data.used
    rw [hcused]
    exact Nat.zero_le _
  · show data.elems.map entryOf ++ [(x, y)] = _
    rw [hb.elems]
    rfl

theorem makePath_spec (hfit : CallsFit start calls) (hr : makePath e fuel start calls = some p) :
    p.Traces (strokes start calls) ∧ p.data.used = calls.length := by
  obtain ⟨p0, hp0, hr⟩ := Option.bind_eq_some_iff.mp hr
  obtain ⟨p0', hp0', htraces, hused⟩ := cdCreatePath_spec (e := e) hfit.1.1 hfit.1.2
  rw [hp0'] at hp0
  obtain rfl := Option.some.inj hp0
  obtain ⟨htraces', hused'⟩ := runCalls_spec htraces hfit.2 hr
  rw [hused, Nat.zero_add] at hused'
  exact ⟨htraces', hused'⟩

theorem makePath_iff (hfit : CallsFit start calls) (e : Allocator) :
    (∃ fuel p, makePath e fuel start calls = some p) ↔ calls.length ≤ 32768 := by
  obtain ⟨p0, hp0, htraces, hused⟩ := cdCreatePath_spec (e := e) hfit.1.1 hfit.1.2
  have hiff := runCalls_iff htraces hfit.2 e
  rw [hused, Nat.zero_add] at hiff
  rw [← hiff]
  unfold makePath
  rw [hp0]
  rfl

end Runs

end Nolrem.Cd
