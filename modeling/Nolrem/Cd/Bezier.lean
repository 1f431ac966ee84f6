import Mathlib.Tactic.Linarith
import Nolrem.Cd.Path

/-!
# Bezier curves

`DrawCubicBeizerPath` and `DrawQuadraticBezierPath` of `kernel/CLIPDRAW/fully_pageable/path.c`:
curves are halved in fixed point until they are flat or deep enough.
-/

namespace Nolrem.Cd

open Nolrem.Lib

/-! ## The code -/

/-- `TO_FP` -/
def toFp (x : Int) : Option Int := cInt (x * 256)

/-- `FROM_FP` -/
def fromFp (x : Int) : Option Int := (cInt (x + 128)).map (· / 256)

/-- `Midpoint` -/
def midpoint (a b : Int) : Option Int := (cInt (a + b)).map (· / 2)

/-- `IsFlatEnough` -/
def isFlatEnough (x1 y1 x2 y2 cx cy : Int) : Option Bool := do
  let dx ← cInt64 (x2 - x1)
  let dy ← cInt64 (y2 - y1)
  let a ← cInt64 (y1 - cy)
  let b ← cInt64 (x1 - cx)
  let da ← cInt64 (dx * a)
  let db ← cInt64 (dy * b)
  let cross ← cInt64 (da - db)
  let cross ← if cross < 0 then cInt64 (-cross) else some cross
  some (decide (cross < 1024))

/-- The end points of a curve and its control points, in fixed point. -/
structure Cubic where
  x1 : Int
  y1 : Int
  x2 : Int
  y2 : Int
  c1x : Int
  c1y : Int
  c2x : Int
  c2y : Int

namespace Cubic

variable (c : Cubic)

/-- Both control points are close to the line. -/
def isFlat : Option Bool := do
  if ← isFlatEnough c.x1 c.y1 c.x2 c.y2 c.c1x c.c1y then
    isFlatEnough c.x1 c.y1 c.x2 c.y2 c.c2x c.c2y
  else some false

/-- The two halves of a curve. -/
def halves : Option (Cubic × Cubic) := do
  let x12 ← midpoint c.x1 c.c1x
  let y12 ← midpoint c.y1 c.c1y
  let x23 ← midpoint c.c1x c.c2x
  let y23 ← midpoint c.c1y c.c2y
  let x34 ← midpoint c.c2x c.x2
  let y34 ← midpoint c.c2y c.y2
  let x123 ← midpoint x12 x23
  let y123 ← midpoint y12 y23
  let x234 ← midpoint x23 x34
  let y234 ← midpoint y23 y34
  let x1234 ← midpoint x123 x234
  let y1234 ← midpoint y123 y234
  some (⟨c.x1, c.y1, x1234, y1234, x12, y12, x123, y123⟩,
    ⟨x1234, y1234, c.x2, c.y2, x234, y234, x34, y34⟩)

/-- The number of flat pieces after halving it at most `levels` times. -/
def pieces : Nat → Cubic → Nat
  | 0, _ => 1
  | levels + 1, c =>
    if c.isFlat = some true then 1
    else
      match c.halves with
      | some (first, second) => first.pieces levels + second.pieces levels
      | none => 1

/-- A line to the end of the curve. -/
def drawEnd (e : Allocator) (fuel : Nat) (p : Path) : Option Path := do
  let x ← fromFp c.x2
  let y ← fromFp c.y2
  cdDrawPath e fuel p x y

end Cubic

/-- `RECURSION_LIMIT` -/
def recursionLimit : Nat := 8

/-- `DrawCubicBeizerPathRecursive`, with `levels` for `RECURSION_LIMIT + 1 - depth`. -/
def drawCubicBeizerPathRecursive (e : Allocator) (fuel : Nat) :
    Nat → Path → Cubic → Option Path
  | 0, p, c => c.drawEnd e fuel p
  | levels + 1, p, c => do
    if ← c.isFlat then c.drawEnd e fuel p
    else do
      let (first, second) ← c.halves
      let p ← drawCubicBeizerPathRecursive e fuel levels p first
      drawCubicBeizerPathRecursive e fuel levels p second

/-- `DrawCubicBeizerPath` -/
def drawCubicBeizerPath (e : Allocator) (fuel : Nat) (p : Path) (x y c1x c1y c2x c2y : Int) :
    Option Path := do
  let x1 ← toFp p.x
  let y1 ← toFp p.y
  let x2 ← toFp x
  let y2 ← toFp y
  let c1x ← toFp c1x
  let c1y ← toFp c1y
  let c2x ← toFp c2x
  let c2y ← toFp c2y
  drawCubicBeizerPathRecursive e fuel (recursionLimit + 1) p ⟨x1, y1, x2, y2, c1x, c1y, c2x, c2y⟩

/-- `p + (int32_t) ((int64_t) (q - p) * 2 / 3)` -/
def twoThirds (p q : Int) : Option Int := do
  let diff ← cInt (q - p)
  let double ← cInt64 (diff * 2)
  let part ← cInt (double.tdiv 3)
  cInt (p + part)

/-- `DrawQuadraticBezierPath` -/
def drawQuadraticBezierPath (e : Allocator) (fuel : Nat) (p : Path) (x y cx cy : Int) :
    Option Path := do
  let p0x ← toFp p.x
  let p0y ← toFp p.y
  let p1x ← toFp cx
  let p1y ← toFp cy
  let p2x ← toFp x
  let p2y ← toFp y
  let c1x ← twoThirds p0x p1x
  let c1y ← twoThirds p0y p1y
  let c2x ← twoThirds p2x p1x
  let c2y ← twoThirds p2y p1y
  drawCubicBeizerPathRecursive e fuel (recursionLimit + 1) p
    ⟨p0x, p0y, p2x, p2y, c1x, c1y, c2x, c2y⟩

/-! ## Points of a box -/

/-- A fixed-point coordinate between `l` and `h`. -/
def Between (l h v : Int) : Prop := 256 * l ≤ v ∧ v ≤ 256 * h

section Between

variable {l h v w : Int} (hl : -2097152 ≤ l) (hh : h ≤ 2097152)

include hl hh

theorem midpoint_between (hv : Between l h v) (hw : Between l h w) :
    ∃ u, midpoint v w = some u ∧ Between l h u := by
  obtain ⟨h1, h2⟩ := hv
  obtain ⟨h3, h4⟩ := hw
  refine ⟨(v + w) / 2, ?_, by omega, by omega⟩
  unfold midpoint
  rw [cInt_of_fits ⟨by omega, by omega⟩]
  rfl

theorem fromFp_between (hv : Between l h v) :
    fromFp v = some ((v + 128) / 256) ∧ l ≤ (v + 128) / 256 ∧ (v + 128) / 256 ≤ h := by
  obtain ⟨h1, h2⟩ := hv
  refine ⟨?_, by omega, by omega⟩
  unfold fromFp
  rw [cInt_of_fits ⟨by omega, by omega⟩]
  rfl

theorem toFp_between (h1 : l ≤ v) (h2 : v ≤ h) :
    toFp v = some (256 * v) ∧ Between l h (256 * v) := by
  refine ⟨?_, by omega, by omega⟩
  unfold toFp
  rw [cInt_of_fits ⟨by omega, by omega⟩, Int.mul_comm]

/-- The truncated part does not leave the two points it is between. -/
theorem twoThirds_between (hv : Between l h v) (hw : Between l h w) :
    twoThirds v w = some (v + ((w - v) * 2).tdiv 3) ∧ Between l h (v + ((w - v) * 2).tdiv 3) := by
  obtain ⟨h1, h2⟩ := hv
  obtain ⟨h3, h4⟩ := hw
  have hpart : (v ≤ w → 0 ≤ ((w - v) * 2).tdiv 3 ∧ ((w - v) * 2).tdiv 3 ≤ w - v) ∧
      (w ≤ v → w - v ≤ ((w - v) * 2).tdiv 3 ∧ ((w - v) * 2).tdiv 3 ≤ 0) := by
    constructor
    · intro hle
      rw [Int.tdiv_eq_ediv_of_nonneg (by omega)]
      omega
    · intro hle
      rw [← Int.neg_neg ((w - v) * 2), Int.neg_tdiv, Int.tdiv_eq_ediv_of_nonneg (by omega)]
      omega
  generalize hq : ((w - v) * 2).tdiv 3 = part at hpart
  refine ⟨?_, ?_, ?_⟩
  · unfold twoThirds
    simp only [Option.bind_eq_bind]
    rw [cInt_of_fits ⟨by omega, by omega⟩, Option.bind_some, cInt64_of_fits (by omega) (by omega),
      Option.bind_some, hq, cInt_of_fits ⟨by omega, by omega⟩, Option.bind_some,
      cInt_of_fits ⟨by omega, by omega⟩]
  · omega
  · omega

end Between

/-! ## Curves in a box -/

/-- A box of points that are not too far away. -/
structure Box2 where
  x0 : Int
  x1 : Int
  y0 : Int
  y1 : Int
  low : -2097152 ≤ x0 ∧ -2097152 ≤ y0
  high : x1 ≤ 2097152 ∧ y1 ≤ 2097152

def Box2.Mem (b : Box2) (q : Int × Int) : Prop :=
  (b.x0 ≤ q.1 ∧ q.1 ≤ b.x1) ∧ b.y0 ≤ q.2 ∧ q.2 ≤ b.y1

/-- All points of a curve are in the box. -/
structure Cubic.Within (c : Cubic) (b : Box2) : Prop where
  start : Between b.x0 b.x1 c.x1 ∧ Between b.y0 b.y1 c.y1
  finish : Between b.x0 b.x1 c.x2 ∧ Between b.y0 b.y1 c.y2
  control1 : Between b.x0 b.x1 c.c1x ∧ Between b.y0 b.y1 c.c1y
  control2 : Between b.x0 b.x1 c.c2x ∧ Between b.y0 b.y1 c.c2y

theorem abs_mul_le {a b : Int} (ha : -1073741824 ≤ a ∧ a ≤ 1073741824)
    (hb : -1073741824 ≤ b ∧ b ≤ 1073741824) :
    -1152921504606846976 ≤ a * b ∧ a * b ≤ 1152921504606846976 := by
  constructor <;> nlinarith

section Curve

variable {b : Box2} {c : Cubic}

theorem isFlatEnough_defined {x1 y1 x2 y2 cx cy : Int}
    (h1 : Between b.x0 b.x1 x1 ∧ Between b.y0 b.y1 y1)
    (h2 : Between b.x0 b.x1 x2 ∧ Between b.y0 b.y1 y2)
    (hc : Between b.x0 b.x1 cx ∧ Between b.y0 b.y1 cy) :
    ∃ flat, isFlatEnough x1 y1 x2 y2 cx cy = some flat := by
  obtain ⟨⟨h3, h4⟩, h5, h6⟩ := h1
  obtain ⟨⟨h7, h8⟩, h9, h10⟩ := h2
  obtain ⟨⟨h11, h12⟩, h13, h14⟩ := hc
  have hlow := b.low
  have hhigh := b.high
  have hda := abs_mul_le (a := x2 - x1) (b := y1 - cy) ⟨by omega, by omega⟩ ⟨by omega, by omega⟩
  have hdb := abs_mul_le (a := y2 - y1) (b := x1 - cx) ⟨by omega, by omega⟩ ⟨by omega, by omega⟩
  unfold isFlatEnough
  simp only [Option.bind_eq_bind]
  rw [cInt64_of_fits (by omega) (by omega), Option.bind_some,
    cInt64_of_fits (by omega) (by omega), Option.bind_some,
    cInt64_of_fits (by omega) (by omega), Option.bind_some,
    cInt64_of_fits (by omega) (by omega), Option.bind_some,
    cInt64_of_fits (by omega) (by omega), Option.bind_some,
    cInt64_of_fits (by omega) (by omega), Option.bind_some,
    cInt64_of_fits (by omega) (by omega), Option.bind_some]
  split_ifs
  · rw [cInt64_of_fits (by omega) (by omega)]
    exact ⟨_, rfl⟩
  · exact ⟨_, rfl⟩

theorem Cubic.Within.isFlat (h : c.Within b) : ∃ flat, c.isFlat = some flat := by
  obtain ⟨flat1, h1⟩ := isFlatEnough_defined h.start h.finish h.control1
  obtain ⟨flat2, h2⟩ := isFlatEnough_defined h.start h.finish h.control2
  unfold Cubic.isFlat
  rw [h1, h2]
  cases flat1
  · exact ⟨_, rfl⟩
  · exact ⟨_, rfl⟩

/-- The halves of a curve stay in the box, and the second one ends where the curve ends. -/
theorem Cubic.Within.halves (h : c.Within b) :
    ∃ first second, c.halves = some (first, second) ∧ first.Within b ∧ second.Within b ∧
      second.x2 = c.x2 ∧ second.y2 = c.y2 := by
  obtain ⟨⟨hx1, hy1⟩, ⟨hx2, hy2⟩, ⟨hc1x, hc1y⟩, hc2x, hc2y⟩ := h
  have hx {v w : Int} := midpoint_between (v := v) (w := w) b.low.1 b.high.1
  have hy {v w : Int} := midpoint_between (v := v) (w := w) b.low.2 b.high.2
  obtain ⟨x12, ex12, hx12⟩ := hx hx1 hc1x
  obtain ⟨y12, ey12, hy12⟩ := hy hy1 hc1y
  obtain ⟨x23, ex23, hx23⟩ := hx hc1x hc2x
  obtain ⟨y23, ey23, hy23⟩ := hy hc1y hc2y
  obtain ⟨x34, ex34, hx34⟩ := hx hc2x hx2
  obtain ⟨y34, ey34, hy34⟩ := hy hc2y hy2
  obtain ⟨x123, ex123, hx123⟩ := hx hx12 hx23
  obtain ⟨y123, ey123, hy123⟩ := hy hy12 hy23
  obtain ⟨x234, ex234, hx234⟩ := hx hx23 hx34
  obtain ⟨y234, ey234, hy234⟩ := hy hy23 hy34
  obtain ⟨x1234, ex1234, hx1234⟩ := hx hx123 hx234
  obtain ⟨y1234, ey1234, hy1234⟩ := hy hy123 hy234
  refine ⟨⟨c.x1, c.y1, x1234, y1234, x12, y12, x123, y123⟩,
    ⟨x1234, y1234, c.x2, c.y2, x234, y234, x34, y34⟩, ?_,
    ⟨⟨hx1, hy1⟩, ⟨hx1234, hy1234⟩, ⟨hx12, hy12⟩, hx123, hy123⟩,
    ⟨⟨hx1234, hy1234⟩, ⟨hx2, hy2⟩, ⟨hx234, hy234⟩, hx34, hy34⟩, rfl, rfl⟩
  unfold Cubic.halves
  simp only [Option.bind_eq_bind, ex12, ey12, ex23, ey23, ex34, ey34, ex123, ey123, ex234, ey234,
    ex1234, ey1234, Option.bind_some]

/-- `CdDrawPath` for each of the points, in order. -/
def drawAll (e : Allocator) (fuel : Nat) (p : Path) (pts : List (Int × Int)) : Option Path :=
  runCalls e fuel p (pts.map fun q => .draw q.1 q.2)

/-- The points that a curve is drawn with. -/
structure Flattening (b : Box2) (levels : Nat) (c : Cubic) (pts : List (Int × Int)) : Prop where
  length : pts.length = c.pieces levels
  last : pts.getLast? = some ((c.x2 + 128) / 256, (c.y2 + 128) / 256)
  mem : ∀ q ∈ pts, b.Mem q

theorem drawAll_append (e : Allocator) (fuel : Nat) (p : Path) (l r : List (Int × Int)) :
    drawAll e fuel p (l ++ r) = (drawAll e fuel p l).bind (drawAll e fuel · r) := by
  unfold drawAll runCalls
  rw [List.map_append, List.foldlM_append]
  rfl

theorem drawEnd_eq (h : c.Within b) :
    ∃ pts : List (Int × Int), pts.length = 1 ∧
      pts.getLast? = some ((c.x2 + 128) / 256, (c.y2 + 128) / 256) ∧ (∀ q ∈ pts, b.Mem q) ∧
      ∀ e fuel p, c.drawEnd e fuel p = drawAll e fuel p pts := by
  obtain ⟨hx, hx'⟩ := fromFp_between b.low.1 b.high.1 h.finish.1
  obtain ⟨hy, hy'⟩ := fromFp_between b.low.2 b.high.2 h.finish.2
  refine ⟨[((c.x2 + 128) / 256, (c.y2 + 128) / 256)],
    rfl, rfl, fun q hq => ?_, fun e fuel p => ?_⟩
  · obtain rfl := List.mem_singleton.mp hq
    exact ⟨hx', hy'⟩
  · unfold Cubic.drawEnd drawAll runCalls
    rw [hx, hy, List.map_cons, List.map_nil, List.foldlM_cons]
    simp only [Option.bind_eq_bind, Option.bind_some, List.foldlM_nil, PathCall.run]
    cases cdDrawPath e fuel p ((c.x2 + 128) / 256) ((c.y2 + 128) / 256) <;> rfl

/-- The recursion only calls `CdDrawPath`, with points of the box. -/
theorem drawCubicBeizerPathRecursive_eq (levels : Nat) (h : c.Within b) :
    ∃ pts, Flattening b levels c pts ∧
      ∀ e fuel p, drawCubicBeizerPathRecursive e fuel levels p c = drawAll e fuel p pts := by
  induction levels generalizing c with
  | zero =>
    obtain ⟨pts, hlen, hlast, hmem, hdraw⟩ := drawEnd_eq h
    exact ⟨pts, ⟨hlen, hlast, hmem⟩, hdraw⟩
  | succ levels ih =>
    obtain ⟨flat, hflat⟩ := h.isFlat
    cases flat with
    | true =>
      obtain ⟨pts, hlen, hlast, hmem, hdraw⟩ := drawEnd_eq h
      refine ⟨pts, ⟨?_, hlast, hmem⟩, fun e fuel p => ?_⟩
      · rw [hlen, Cubic.pieces, if_pos hflat]
      rw [drawCubicBeizerPathRecursive, hflat]
      exact hdraw e fuel p
    | false =>
      obtain ⟨first, second, hhalves, hfirst, hsecond, hx2, hy2⟩ := h.halves
      obtain ⟨l, hl, hdrawl⟩ := ih hfirst
      obtain ⟨r, hr, hdrawr⟩ := ih hsecond
      refine ⟨l ++ r, ⟨?_, ?_, ?_⟩, fun e fuel p => ?_⟩
      · rw [List.length_append, hl.length, hr.length, Cubic.pieces, hflat, if_neg (by simp),
          hhalves]
      · rw [List.getLast?_append, hr.last, hx2, hy2]
        rfl
      · exact List.forall_mem_append.mpr ⟨hl.mem, hr.mem⟩
      · rw [drawCubicBeizerPathRecursive, hflat, drawAll_append, ← hdrawl]
        simp only [Option.bind_eq_bind, Option.bind_some, hhalves, Bool.false_eq_true, if_false]
        exact congrArg _ (funext fun p => hdrawr e fuel p)

end Curve

/-! ## The two kinds of curves -/

/-- The point is in the bounding box of `qs`. -/
def InBoundingBox (qs : List (Int × Int)) (q : Int × Int) : Prop :=
  ((∃ a ∈ qs, a.1 ≤ q.1) ∧ ∃ a ∈ qs, q.1 ≤ a.1) ∧ (∃ a ∈ qs, a.2 ≤ q.2) ∧ ∃ a ∈ qs, q.2 ≤ a.2

/-- The coordinates for which curves are drawn. -/
def Near (q : Int × Int) : Prop :=
  (-2097152 ≤ q.1 ∧ q.1 ≤ 2097152) ∧ -2097152 ≤ q.2 ∧ q.2 ≤ 2097152

/-- The bounding box of four points. -/
def boundingBox (a b c d : Int × Int) (ha : Near a) (hb : Near b) (hc : Near c) (hd : Near d) :
    Box2 where
  x0 := min (min a.1 b.1) (min c.1 d.1)
  x1 := max (max a.1 b.1) (max c.1 d.1)
  y0 := min (min a.2 b.2) (min c.2 d.2)
  y1 := max (max a.2 b.2) (max c.2 d.2)
  low := by
    unfold Near at ha hb hc hd
    omega
  high := by
    unfold Near at ha hb hc hd
    omega

theorem inBoundingBox_of_mem {a b c d q : Int × Int} {ha : Near a} {hb : Near b} {hc : Near c}
    {hd : Near d} (h : (boundingBox a b c d ha hb hc hd).Mem q) :
    InBoundingBox [a, b, c, d] q := by
  obtain ⟨⟨h1, h2⟩, h3, h4⟩ := h
  dsimp only [boundingBox] at h1 h2 h3 h4
  refine ⟨⟨?_, ?_⟩, ?_, ?_⟩
  all_goals
    by_contra hno
    simp only [List.mem_cons, List.not_mem_nil, or_false, exists_eq_or_imp, exists_eq_left,
      not_or, not_le] at hno
    omega

/-- `run` ends, and it appends a few points of the bounding box, the last of which is `finish`. -/
def AppendsCurve (p : Path) (finish : Int × Int) (controls : List (Int × Int))
    (run : Allocator → Nat → Option Path) : Prop :=
  ∀ e, ∃ fuel p' pts, run e fuel = some p' ∧ p'.points = p.points ++ pts ∧
    (1 ≤ pts.length ∧ pts.length ≤ 2 ^ 9) ∧ pts.getLast? = some finish ∧
      ∀ q ∈ pts, InBoundingBox ((p.x, p.y) :: finish :: controls) q

theorem Near.fits {q : Int × Int} (h : Near q) : FitsInt q.1 ∧ FitsInt q.2 := by
  unfold Near at h
  exact ⟨⟨by omega, by omega⟩, by omega, by omega⟩

theorem Cubic.pieces_bounds (levels : Nat) (c : Cubic) :
    1 ≤ c.pieces levels ∧ c.pieces levels ≤ 2 ^ levels := by
  induction levels generalizing c with
  | zero => exact ⟨Nat.le_refl 1, Nat.le_refl 1⟩
  | succ levels ih =>
    have hone : 1 ≤ 2 ^ (levels + 1) := Nat.one_le_two_pow
    rw [Cubic.pieces]
    split_ifs
    · exact ⟨Nat.le_refl 1, hone⟩
    · cases c.halves with
      | none => exact ⟨Nat.le_refl 1, hone⟩
      | some both =>
        obtain ⟨h1, h2⟩ := ih both.1
        obtain ⟨h3, h4⟩ := ih both.2
        rw [Nat.pow_succ, Nat.mul_two]
        exact ⟨Nat.le_add_right_of_le h1, Nat.add_le_add h2 h4⟩

section Curves

variable {p : Path} {s : Strokes} {x y : Int}

/-- A curve whose points in fixed point are in the bounding box. -/
theorem appendsCurve_iff_of_within {c d : Int × Int} (htraces : p.Traces s) (ha : Near (p.x, p.y))
    (hb : Near (x, y)) (hc : Near c) (hd : Near d) {curve : Cubic}
    (h : curve.Within (boundingBox (p.x, p.y) (x, y) c d ha hb hc hd))
    (hx : curve.x2 = 256 * x) (hy : curve.y2 = 256 * y) {controls : List (Int × Int)}
    (hcontrols : ∀ q, InBoundingBox [(p.x, p.y), (x, y), c, d] q →
      InBoundingBox ((p.x, p.y) :: (x, y) :: controls) q)
    {run : Allocator → Nat → Option Path} (hrun : ∀ e fuel, run e fuel =
      drawCubicBeizerPathRecursive e fuel (recursionLimit + 1) p curve) :
    AppendsCurve p (x, y) controls run ↔
      p.data.used + curve.pieces (recursionLimit + 1) ≤ 32768 := by
  obtain ⟨pts, hflat, hdraw⟩ := drawCubicBeizerPathRecursive_eq (recursionLimit + 1) h
  obtain ⟨hpos, hle⟩ := Cubic.pieces_bounds (recursionLimit + 1) curve
  have hlast : ((curve.x2 + 128) / 256, (curve.y2 + 128) / 256) = (x, y) := by
    rw [hx, hy, Prod.mk.injEq]
    omega
  have hcalls : ∀ k ∈ pts.map fun q => PathCall.draw q.1 q.2,
      FitsInt k.point.1 ∧ FitsInt k.point.2 := by
    intro k hk
    obtain ⟨q, hq, rfl⟩ := List.mem_map.mp hk
    obtain ⟨h1, h2⟩ := hflat.mem q hq
    have hlow := (boundingBox (p.x, p.y) (x, y) c d ha hb hc hd).low
    have hhigh := (boundingBox (p.x, p.y) (x, y) c d ha hb hc hd).high
    exact ⟨⟨by dsimp only [PathCall.point]; omega, by dsimp only [PathCall.point]; omega⟩,
      by dsimp only [PathCall.point]; omega, by dsimp only [PathCall.point]; omega⟩
  have hiff (e : Allocator) : (∃ fuel p', run e fuel = some p') ↔
      p.data.used + curve.pieces (recursionLimit + 1) ≤ 32768 := by
    have hruns := runCalls_iff htraces hcalls e
    rw [List.length_map, hflat.length] at hruns
    simp only [hrun, hdraw]
    exact hruns
  constructor
  · intro hall
    obtain ⟨fuel, p', -, hend, -⟩ := hall ⟨id, fun _ => Nat.le_refl _, fun _ _ => 0⟩
    exact (hiff _).mp ⟨fuel, p', hend⟩
  · intro hroom e
    obtain ⟨fuel, p', hend⟩ := (hiff e).mpr hroom
    refine ⟨fuel, p', pts, hend, ?_, ⟨?_, ?_⟩, ?_,
      fun q hq => hcontrols q (inBoundingBox_of_mem (hflat.mem q hq))⟩
    · rw [hrun, hdraw] at hend
      have hpoints : (pts.map fun q => PathCall.draw q.1 q.2).map PathCall.point = pts := by
        rw [List.map_map]
        exact List.map_id pts
      rw [(runCalls_spec htraces hcalls hend).1.points, Strokes.points_foldl, hpoints,
        htraces.points]
    · rw [hflat.length]
      exact hpos
    · rw [hflat.length]
      exact hle
    · rw [hflat.last, hlast]

theorem mem_boundingBox {a b c d : Int × Int} (ha : Near a) (hb : Near b) (hc : Near c)
    (hd : Near d) {q : Int × Int} (hq : q ∈ [a, b, c, d]) :
    (boundingBox a b c d ha hb hc hd).Mem q := by
  unfold Box2.Mem boundingBox
  dsimp only
  simp only [List.mem_cons, List.not_mem_nil, or_false] at hq
  rcases hq with rfl | rfl | rfl | rfl <;> exact ⟨⟨by omega, by omega⟩, by omega, by omega⟩

/-- The curve with these ends and control points, in fixed point. -/
def Cubic.ofPoints (a b c d : Int × Int) : Cubic where
  x1 := 256 * a.1
  y1 := 256 * a.2
  x2 := 256 * b.1
  y2 := 256 * b.2
  c1x := 256 * c.1
  c1y := 256 * c.2
  c2x := 256 * d.1
  c2y := 256 * d.2

/-- Two thirds of the way from one to the other, rounded towards the start. -/
def towards (v w : Int) : Int := v + ((w - v) * 2).tdiv 3

/-- The curve with these ends and one control point, in fixed point. -/
def Cubic.ofQuadratic (a b c : Int × Int) : Cubic where
  x1 := 256 * a.1
  y1 := 256 * a.2
  x2 := 256 * b.1
  y2 := 256 * b.2
  c1x := towards (256 * a.1) (256 * c.1)
  c1y := towards (256 * a.2) (256 * c.2)
  c2x := towards (256 * b.1) (256 * c.1)
  c2y := towards (256 * b.2) (256 * c.2)

theorem drawCubicBeizerPath_iff {c1x c1y c2x c2y : Int} (htraces : p.Traces s)
    (hp : Near (p.x, p.y)) (hxy : Near (x, y)) (h1 : Near (c1x, c1y)) (h2 : Near (c2x, c2y)) :
    AppendsCurve p (x, y) [(c1x, c1y), (c2x, c2y)]
        (fun e fuel => drawCubicBeizerPath e fuel p x y c1x c1y c2x c2y) ↔
      p.data.used + (Cubic.ofPoints (p.x, p.y) (x, y) (c1x, c1y) (c2x, c2y)).pieces
        (recursionLimit + 1) ≤ 32768 := by
  have hmem {q : Int × Int} (hq : q ∈ [(p.x, p.y), (x, y), (c1x, c1y), (c2x, c2y)]) :=
    mem_boundingBox hp hxy h1 h2 hq
  have hlow := (boundingBox (p.x, p.y) (x, y) (c1x, c1y) (c2x, c2y) hp hxy h1 h2).low
  have hhigh := (boundingBox (p.x, p.y) (x, y) (c1x, c1y) (c2x, c2y) hp hxy h1 h2).high
  have hfp {q : Int × Int} (hq : q ∈ [(p.x, p.y), (x, y), (c1x, c1y), (c2x, c2y)]) :=
    And.intro (toFp_between hlow.1 hhigh.1 (hmem hq).1.1 (hmem hq).1.2)
      (toFp_between hlow.2 hhigh.2 (hmem hq).2.1 (hmem hq).2.2)
  obtain ⟨⟨ex1, hx1⟩, ey1, hy1⟩ := hfp (q := (p.x, p.y)) (by simp)
  obtain ⟨⟨ex2, hx2⟩, ey2, hy2⟩ := hfp (q := (x, y)) (by simp)
  obtain ⟨⟨ec1x, hc1x⟩, ec1y, hc1y⟩ := hfp (q := (c1x, c1y)) (by simp)
  obtain ⟨⟨ec2x, hc2x⟩, ec2y, hc2y⟩ := hfp (q := (c2x, c2y)) (by simp)
  refine appendsCurve_iff_of_within htraces hp hxy h1 h2
    ⟨⟨hx1, hy1⟩, ⟨hx2, hy2⟩, ⟨hc1x, hc1y⟩, hc2x, hc2y⟩ rfl rfl (fun q hq => hq) fun e fuel => ?_
  unfold drawCubicBeizerPath
  dsimp only at ex1 ey1 ex2 ey2 ec1x ec1y ec2x ec2y
  simp only [Option.bind_eq_bind, ex1, ey1, ex2, ey2, ec1x, ec1y, ec2x, ec2y, Option.bind_some]
  rfl

theorem drawQuadraticBezierPath_iff {cx cy : Int} (htraces : p.Traces s) (hp : Near (p.x, p.y))
    (hxy : Near (x, y)) (hc : Near (cx, cy)) :
    AppendsCurve p (x, y) [(cx, cy)]
        (fun e fuel => drawQuadraticBezierPath e fuel p x y cx cy) ↔
      p.data.used + (Cubic.ofQuadratic (p.x, p.y) (x, y) (cx, cy)).pieces
        (recursionLimit + 1) ≤ 32768 := by
  have hmem {q : Int × Int} (hq : q ∈ [(p.x, p.y), (x, y), (cx, cy), (cx, cy)]) :=
    mem_boundingBox hp hxy hc hc hq
  have hlow := (boundingBox (p.x, p.y) (x, y) (cx, cy) (cx, cy) hp hxy hc hc).low
  have hhigh := (boundingBox (p.x, p.y) (x, y) (cx, cy) (cx, cy) hp hxy hc hc).high
  have hfp {q : Int × Int} (hq : q ∈ [(p.x, p.y), (x, y), (cx, cy), (cx, cy)]) :=
    And.intro (toFp_between hlow.1 hhigh.1 (hmem hq).1.1 (hmem hq).1.2)
      (toFp_between hlow.2 hhigh.2 (hmem hq).2.1 (hmem hq).2.2)
  obtain ⟨⟨ex0, hx0⟩, ey0, hy0⟩ := hfp (q := (p.x, p.y)) (by simp)
  obtain ⟨⟨ex2, hx2⟩, ey2, hy2⟩ := hfp (q := (x, y)) (by simp)
  obtain ⟨⟨ex1, hx1⟩, ey1, hy1⟩ := hfp (q := (cx, cy)) (by simp)
  obtain ⟨ec1x, hc1x⟩ := twoThirds_between hlow.1 hhigh.1 hx0 hx1
  obtain ⟨ec1y, hc1y⟩ := twoThirds_between hlow.2 hhigh.2 hy0 hy1
  obtain ⟨ec2x, hc2x⟩ := twoThirds_between hlow.1 hhigh.1 hx2 hx1
  obtain ⟨ec2y, hc2y⟩ := twoThirds_between hlow.2 hhigh.2 hy2 hy1
  refine appendsCurve_iff_of_within htraces hp hxy hc hc
    ⟨⟨hx0, hy0⟩, ⟨hx2, hy2⟩, ⟨hc1x, hc1y⟩, hc2x, hc2y⟩ rfl rfl
    (fun q hq => by simpa [InBoundingBox] using hq) fun e fuel => ?_
  unfold drawQuadraticBezierPath
  dsimp only at ex0 ey0 ex1 ey1 ex2 ey2 ec1x ec1y ec2x ec2y
  simp only [Option.bind_eq_bind, ex0, ey0, ex1, ey1, ex2, ey2, ec1x, ec1y, ec2x, ec2y,
    Option.bind_some]
  rfl

end Curves

/--
**Bezier curves.** On a path that was made by these calls, a curve ends, appends at most 512 points
of the bounding box and ends at its end point, if and only if the array has room for its pieces.
-/
theorem bezier_appendsCurve_iff {start : Int × Int} {calls : List PathCall} {e : Allocator}
    {fuel : Nat} {p : Path} (hfit : CallsFit start calls)
    (hmade : makePath e fuel start calls = some p) (hp : Near (p.x, p.y)) {x y : Int}
    (hxy : Near (x, y)) :
    (∀ c1x c1y c2x c2y, Near (c1x, c1y) → Near (c2x, c2y) →
      (AppendsCurve p (x, y) [(c1x, c1y), (c2x, c2y)]
          (fun e fuel => drawCubicBeizerPath e fuel p x y c1x c1y c2x c2y) ↔
        calls.length + (Cubic.ofPoints (p.x, p.y) (x, y) (c1x, c1y) (c2x, c2y)).pieces
          (recursionLimit + 1) ≤ 32768)) ∧
      ∀ cx cy, Near (cx, cy) →
        (AppendsCurve p (x, y) [(cx, cy)]
            (fun e fuel => drawQuadraticBezierPath e fuel p x y cx cy) ↔
          calls.length + (Cubic.ofQuadratic (p.x, p.y) (x, y) (cx, cy)).pieces
            (recursionLimit + 1) ≤ 32768) := by
  obtain ⟨htraces, hused⟩ := makePath_spec hfit hmade
  rw [← hused]
  exact ⟨fun _ _ _ _ h1 h2 => drawCubicBeizerPath_iff htraces hp hxy h1 h2,
    fun _ _ hc => drawQuadraticBezierPath_iff htraces hp hxy hc⟩

/-- Blocks of the size asked for, filled with zeros. -/
def exactBlocks : Allocator := ⟨id, fun _ => Nat.le_refl _, fun _ _ => 0⟩

/-- What `CdCreatePath` gives for the start (7, 9). -/
def freshPath : Path where
  numPointsTotal := 1
  x := 7
  y := 9
  data := ⟨some ⟨64, fun _ => 0⟩, 8, 0, 8⟩
  countData := ⟨some ⟨16, fun _ => 0⟩, 4, 0, 4⟩
  polygons := 1
  countTotalSoFar := 0
  scaleX := 65536
  scaleY := 65536
  transX := 0
  transY := 0

theorem bezier_appendsCurve_iff_fresh :
    (∀ c1x c1y c2x c2y, Near (c1x, c1y) → Near (c2x, c2y) →
      (AppendsCurve freshPath (30, 40) [(c1x, c1y), (c2x, c2y)]
          (fun e fuel => drawCubicBeizerPath e fuel freshPath 30 40 c1x c1y c2x c2y) ↔
        0 + (Cubic.ofPoints (7, 9) (30, 40) (c1x, c1y) (c2x, c2y)).pieces
          (recursionLimit + 1) ≤ 32768)) ∧
      ∀ cx cy, Near (cx, cy) →
        (AppendsCurve freshPath (30, 40) [(cx, cy)]
            (fun e fuel => drawQuadraticBezierPath e fuel freshPath 30 40 cx cy) ↔
          0 + (Cubic.ofQuadratic (7, 9) (30, 40) (cx, cy)).pieces
            (recursionLimit + 1) ≤ 32768) :=
  @bezier_appendsCurve_iff (7, 9) [] exactBlocks 0 freshPath
    ⟨⟨⟨by decide, by decide⟩, by decide, by decide⟩, nofun⟩ rfl
    ⟨⟨by decide, by decide⟩, by decide, by decide⟩ 30 40
    ⟨⟨by decide, by decide⟩, by decide, by decide⟩

/-- With 32768 points in the array, a straight line to the current point does not end. -/
theorem not_appendsCurve_full :
    ¬ ∀ calls fuel p, CallsFit (0, 0) calls →
      makePath exactBlocks fuel (0, 0) calls = some p → Near (p.x, p.y) →
        AppendsCurve p (0, 0) [(0, 0), (0, 0)]
          (fun e fuel => drawCubicBeizerPath e fuel p 0 0 0 0 0 0) := by
  intro hall
  have hfit : CallsFit (0, 0) (List.replicate 32768 (.draw 0 0)) := by
    refine ⟨⟨⟨by decide, by decide⟩, by decide, by decide⟩, fun c hc => ?_⟩
    rw [List.eq_of_mem_replicate hc]
    exact ⟨⟨by decide, by decide⟩, by decide, by decide⟩
  obtain ⟨fuel, p, hp⟩ := (makePath_iff hfit exactBlocks).mpr
    (Nat.le_of_eq List.length_replicate)
  obtain ⟨htraces, hused⟩ := makePath_spec hfit hp
  rw [List.length_replicate] at hused
  have hcurrent : (p.x, p.y) = (0, 0) := by
    have hlast := congrArg List.getLast? htraces.points
    rw [strokes, Strokes.points_foldl, List.map_replicate, List.replicate_succ',
      ← List.append_assoc, List.getLast?_concat, Path.points, List.getLast?_concat] at hlast
    exact Option.some.inj hlast
  have hzero : Near (0, 0) := ⟨⟨by decide, by decide⟩, by decide, by decide⟩
  have hroom := (drawCubicBeizerPath_iff htraces (hcurrent ▸ hzero) hzero hzero hzero).mp
    (hall _ fuel p hfit hp (hcurrent ▸ hzero))
  have hpos := (Cubic.pieces_bounds (recursionLimit + 1)
    (Cubic.ofPoints (p.x, p.y) (0, 0) (0, 0) (0, 0))).1
  omega

end Nolrem.Cd
