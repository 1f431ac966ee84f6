import Mathlib.Algebra.Order.BigOperators.Group.List
import Mathlib.Data.List.SplitLengths
import Nolrem.Cd.Path
import Nolrem.Cd.PolyPolygon

/-!
# The counts of a path

The accounting of `CdLiftPath` and `CdClosePath`: which numbers of points they hand over, and what
`CdCreatePolyPolygonRegion` makes of them.
-/

namespace Nolrem.Cd

open Nolrem.Lib

/-! ## What is handed over -/

/-- All sub-polygons in order. -/
def Strokes.subPolygons (s : Strokes) : List (List (Int × Int)) := s.lifted ++ [s.current]

def PathCall.isLift : PathCall → Bool
  | draw _ _ => false
  | lift _ _ => true

/-- Where the path puts a point. -/
def Path.mapped (p : Path) (q : Int × Int) : Int × Int :=
  (transform q.1 p.scaleX p.transX, transform q.2 p.scaleY p.transY)

/--
The counts are those of the sub-polygons, each of which gets its own points, which are put where
`place` says. Nothing past the arrays is read.
-/
structure HandsOver (place : Int × Int → Int × Int) (p : Path) (s : Strokes) (args : PolyArgs) :
    Prop where
  polygons : args.polygons = s.subPolygons.length
  counts : args.counts = s.subPolygons.map fun g => (g.length : Int)
  sum : args.counts.sum = p.numPointsTotal
  points : (args.counts.map Int.toNat).splitLengths (args.xs.zip args.ys) =
    s.subPolygons.map (List.map place)
  inside : ∀ (a : Polygon.Args) (e : Polygon.Env), a.counts = args.counts →
    ∀ i, Polygon.Reads (Polygon.cdCreatePolyPolygonRegion a e) i →
      0 ≤ i ∧ i < args.xs.length ∧ i < args.ys.length

/-- Drawing ends, and closing the path hands over its points. -/
def HandsOverPath (place : Path → Int × Int → Int × Int) (start : Int × Int)
    (calls : List PathCall) : Prop :=
  ∀ e, ∃ fuel p, makePath e fuel start calls = some p ∧
    ∀ args, closeArgs p = some args → HandsOver (place p) p (strokes start calls) args

/-! ## Sub-polygons -/

theorem splitLengths_flatten {α : Type} (l : List (List α)) :
    (l.map List.length).splitLengths l.flatten = l := by
  induction l with
  | nil => rfl
  | cons g l ih =>
    rw [List.map_cons, List.flatten_cons, List.splitLengths_cons, List.take_left, List.drop_left,
      ih]

section Counts

variable {start : Int × Int} {calls : List PathCall} {s : Strokes} {p : Path} {args : PolyArgs}

theorem Strokes.flatten_subPolygons (s : Strokes) : s.subPolygons.flatten = s.points := by
  rw [subPolygons, List.flatten_append, List.flatten_singleton]
  rfl

/-- Each lift finishes a sub-polygon. -/
theorem length_lifted_foldl (s : Strokes) (calls : List PathCall) :
    (calls.foldl Strokes.add s).lifted.length = s.lifted.length + calls.countP PathCall.isLift := by
  induction calls generalizing s with
  | nil => rfl
  | cons c calls ih =>
    rw [List.foldl_cons, ih, List.countP_cons]
    cases c <;> simp [Strokes.add, PathCall.isLift]
    omega

theorem length_points_strokes (start : Int × Int) (calls : List PathCall) :
    (strokes start calls).points.length = calls.length + 1 := by
  rw [strokes, Strokes.points_foldl, List.length_append, List.length_map, Nat.add_comm]
  rfl

theorem sum_lengths (l : List (List (Int × Int))) :
    (l.map fun g => (g.length : Int)).sum = l.flatten.length := by
  induction l with
  | nil => rfl
  | cons g l ih =>
    rw [List.map_cons, List.sum_cons, ih, List.flatten_cons, List.length_append, Int.natCast_add]

/-- The counts that are handed over. -/
def Strokes.handedCounts (s : Strokes) : List Int :=
  liftCounts s.lifted ++
    [if s.lifted = [] then (s.current.length : Int) + 1 else (s.current.length : Int)]

/--
Without a lift the last count has one too many, and from the second lift on a lift counts one too
few.
-/
theorem handedCounts_eq_iff :
    (s.handedCounts = s.subPolygons.map fun g => (g.length : Int)) ↔ s.lifted.length = 1 := by
  unfold Strokes.handedCounts Strokes.subPolygons
  rw [List.map_append, List.map_singleton, List.append_singleton_inj]
  match s.lifted with
  | [] =>
    rw [if_pos rfl]
    exact iff_of_false (fun h => by omega) Nat.zero_ne_one
  | [f] => exact iff_of_true ⟨rfl, if_neg (List.cons_ne_nil f [])⟩ rfl
  | f :: g :: l =>
    refine iff_of_false (fun h => ?_) (by simp)
    have hsecond := (List.cons.inj (List.cons.inj h.1).2).1
    dsimp only at hsecond
    omega

theorem mem_liftCounts {l : List (List (Int × Int))} {c : Int} (h : c ∈ liftCounts l) :
    -1 ≤ c ∧ c ≤ l.flatten.length := by
  cases l with
  | nil => cases h
  | cons f l =>
    rw [List.flatten_cons, List.length_append]
    rcases List.mem_cons.mp h with rfl | h
    · omega
    · obtain ⟨g, hg, rfl⟩ := List.mem_map.mp h
      have hle := (List.sublist_flatten_of_mem hg).length_le
      omega

/-- What is handed over for a path. -/
theorem closeArgs_eq (h : p.Traces s) (hmany : ¬ s.points.length < 3) :
    closeArgs p = some {
      xs := s.points.map fun q => (p.mapped q).1
      ys := s.points.map fun q => (p.mapped q).2
      counts := s.handedCounts
      polygons := s.lifted.length + 1 } := by
  have hused : (p.numPointsTotal - 1).toNat = p.data.used := by
    rw [h.total, ← h.points, p.length_points]
    omega
  have hcused : (p.polygons - 1).toNat = p.countData.used := by
    have hlen := congrArg List.length h.counts
    rw [DynamicArray.length_elems, List.length_map] at hlen
    rw [h.polygons, hlen, Int.add_sub_cancel, Int.toNat_natCast]
    cases s.lifted with
    | nil => rfl
    | cons f l => simp [liftCounts]
  have harr : (List.range p.data.used).map (fun i => entryOf (p.data.elem i)) = p.stored := by
    rw [Path.stored, DynamicArray.elems, List.map_map]
    rfl
  have hcounts : (List.range p.countData.used).map (fun i => intOf (p.countData.elem i)) =
      liftCounts s.lifted := by
    have helems : (List.range p.countData.used).map (fun i => intOf (p.countData.elem i)) =
        p.countData.elems.map intOf := by
      rw [DynamicArray.elems, List.map_map]
      rfl
    rw [helems, h.counts, List.map_map]
    refine (List.map_congr_left fun c hc => intOf_intBytes ?_).trans (List.map_id _)
    obtain ⟨hlow, hhigh⟩ := mem_liftCounts hc
    have hlen := p.length_points
    have hroom := h.used_le
    rw [h.points, Strokes.points, List.length_append] at hlen
    exact ⟨by omega, by omega⟩
  have hlast : p.numPointsTotal - p.countTotalSoFar + 1 =
      if s.lifted = [] then (s.current.length : Int) + 1 else (s.current.length : Int) := by
    rw [h.count]
    split_ifs <;> omega
  unfold closeArgs
  rw [if_neg (by rw [h.total]; omega), hused, hcused, hlast]
  dsimp only
  rw [harr, hcounts, h.polygons, ← h.points, Path.points, List.map_append, List.map_append]
  rfl

/-- With the right counts, each polygon that is drawn lies in the arrays. -/
theorem drawn_inside {counts : List Int} {n : Int} (hpos : ∀ c ∈ counts, 0 ≤ c)
    (hsum : counts.sum = n) {i : Int} (h : Polygon.Drawn counts i) : 0 ≤ i ∧ i < n := by
  obtain ⟨l, c, r, rfl, -, h1, h2⟩ := h
  obtain ⟨hl, hr⟩ := List.forall_mem_append.mp hpos
  have hlsum := List.sum_nonneg hl
  have hrsum := List.sum_nonneg (List.forall_mem_cons.mp hr).2
  rw [List.sum_append, List.sum_cons] at hsum
  omega

/-- What is handed over is right if the counts and the places are. -/
theorem handsOver_iff (h : p.Traces s) (hmany : ¬ s.points.length < 3)
    (hargs : closeArgs p = some args) (place : Int × Int → Int × Int) :
    HandsOver place p s args ↔
      s.lifted.length = 1 ∧ ∀ q ∈ s.points, p.mapped q = place q := by
  rw [closeArgs_eq h hmany] at hargs
  obtain rfl := Option.some.inj hargs
  have hzip : (s.points.map fun q => (p.mapped q).1).zip (s.points.map fun q => (p.mapped q).2) =
      (s.subPolygons.map (List.map p.mapped)).flatten := by
    rw [List.zip_map', ← List.map_flatten, s.flatten_subPolygons]
  have hlens : (s.subPolygons.map fun g => (g.length : Int)).map Int.toNat =
      (s.subPolygons.map (List.map p.mapped)).map List.length := by
    rw [List.map_map, List.map_map]
    refine List.map_congr_left fun g _ => ?_
    simp
  have hplaces : s.subPolygons.map (List.map p.mapped) = s.subPolygons.map (List.map place) ↔
      ∀ q ∈ s.points, p.mapped q = place q := by
    rw [List.map_inj_left, ← s.flatten_subPolygons]
    simp only [List.map_inj_left, List.mem_flatten]
    exact ⟨fun hall q ⟨g, hg, hq⟩ => hall g hg q hq, fun hall g hg q hq => hall q ⟨g, hg, hq⟩⟩
  constructor
  · intro hover
    have hcounts := hover.counts
    have hpoints := hover.points
    dsimp only at hcounts hpoints
    rw [hcounts, hzip, hlens, splitLengths_flatten] at hpoints
    exact ⟨handedCounts_eq_iff.mp hcounts, hplaces.mp hpoints⟩
  · rintro ⟨hone, hplace⟩
    have hcounts := handedCounts_eq_iff.mpr hone
    have hsum : s.handedCounts.sum = s.points.length := by
      rw [hcounts, sum_lengths, s.flatten_subPolygons]
    refine ⟨?_, hcounts, hsum.trans h.total.symm, ?_, fun a e ha i hi => ?_⟩
    · simp [Strokes.subPolygons]
    · dsimp only
      rw [hcounts, hzip, hlens, splitLengths_flatten]
      exact hplaces.mpr hplace
    · have hlen : 1 ≤ a.polygons := by
        rw [← a.length_eq, ha, hcounts]
        simp [Strokes.subPolygons]
      have hdrawn := (Polygon.reads_cdCreate hlen).mp hi
      rw [ha] at hdrawn
      have hin := drawn_inside (n := s.points.length) (fun c hc => ?_) hsum hdrawn
      · simpa using hin
      · rw [hcounts] at hc
        obtain ⟨g, -, rfl⟩ := List.mem_map.mp hc
        exact Int.natCast_nonneg _

/-- The scale of a new path moves all points but (0, 0). -/
theorem transform_eq_self {x : Int} (hx : FitsInt x) : transform x 65536 0 = x ↔ x = 0 := by
  obtain ⟨h1, h2⟩ := hx
  unfold transform
  rw [BitVec.toInt_ofInt, Int.mul_tdiv_assoc _ (by decide)]
  show ((x * 256 + 0).bmod (2 ^ 32) = x) ↔ _
  rw [Int.bmod_def]
  constructor
  · intro h
    split_ifs at h <;> omega
  · rintro rfl
    rfl

/-- A path hands over its points if there is room for them and, from three points on, one lift. -/
theorem handsOverPath_iff_of (hfit : CallsFit start calls) {place : Path → Int × Int → Int × Int}
    {P : Prop} (hplace : ∀ p, p.Traces (strokes start calls) →
      ((∀ q ∈ (strokes start calls).points, p.mapped q = place p q) ↔ P)) :
    HandsOverPath place start calls ↔
      calls.length ≤ 32768 ∧
        (calls.length + 1 < 3 ∨ calls.countP PathCall.isLift = 1 ∧ P) := by
  have hlen := length_points_strokes start calls
  have hlifts : (strokes start calls).lifted.length = calls.countP PathCall.isLift :=
    (length_lifted_foldl _ calls).trans (Nat.zero_add _)
  constructor
  · intro h
    refine ⟨(makePath_iff hfit ⟨id, fun _ => Nat.le_refl _, fun _ _ => 0⟩).mp ?_, ?_⟩
    · obtain ⟨fuel, p, hmade, -⟩ := h ⟨id, fun _ => Nat.le_refl _, fun _ _ => 0⟩
      exact ⟨fuel, p, hmade⟩
    · refine or_iff_not_imp_left.mpr fun hmany => ?_
      obtain ⟨fuel, p, hmade, hover⟩ := h ⟨id, fun _ => Nat.le_refl _, fun _ _ => 0⟩
      obtain ⟨htraces, -⟩ := makePath_spec hfit hmade
      rw [← hlen] at hmany
      have hargs := closeArgs_eq htraces hmany
      have hboth := (handsOver_iff htraces hmany hargs _).mp (hover _ hargs)
      rwa [hlifts, hplace p htraces] at hboth
  · rintro ⟨hroom, hcond⟩ e
    obtain ⟨fuel, p, hmade⟩ := (makePath_iff hfit e).mpr hroom
    obtain ⟨htraces, -⟩ := makePath_spec hfit hmade
    refine ⟨fuel, p, hmade, fun args hargs => ?_⟩
    by_cases hfew : (strokes start calls).points.length < 3
    · unfold closeArgs at hargs
      rw [if_pos (by rw [htraces.total]; omega)] at hargs
      cases hargs
    · have hcond := hcond.resolve_left (hlen ▸ hfew)
      rw [handsOver_iff htraces hfew hargs, hlifts, hplace p htraces]
      exact hcond

theorem CallsFit.points (hfit : CallsFit start calls) {q : Int × Int}
    (hq : q ∈ (strokes start calls).points) : FitsInt q.1 ∧ FitsInt q.2 := by
  rw [strokes, Strokes.points_foldl] at hq
  rcases List.mem_append.mp hq with hq | hq
  · obtain rfl := List.mem_singleton.mp hq
    exact hfit.1
  · obtain ⟨c, hc, rfl⟩ := List.mem_map.mp hq
    exact hfit.2 c hc

/--
**Closing a path.** The points, put where the transform of the path puts them, are handed over if
and only if the arrays have room for them and, from three points on, there has been just one lift.
They are handed over unchanged only if all of them are (0, 0).
-/
theorem handsOverPath_iff (hfit : CallsFit start calls) :
    (HandsOverPath Path.mapped start calls ↔
      calls.length ≤ 32768 ∧ (calls.length + 1 < 3 ∨ calls.countP PathCall.isLift = 1)) ∧
      (HandsOverPath (fun _ q => q) start calls ↔
        calls.length ≤ 32768 ∧ (calls.length + 1 < 3 ∨ calls.countP PathCall.isLift = 1 ∧
          ∀ q ∈ (strokes start calls).points, q = (0, 0))) := by
  constructor
  · rw [handsOverPath_iff_of hfit (P := True) fun p _ => by simp, and_true]
  · refine handsOverPath_iff_of hfit fun p htraces => forall₂_congr fun q hq => ?_
    obtain ⟨hx, hy⟩ := hfit.points hq
    obtain ⟨⟨hsx, hsy⟩, htx, hty⟩ := htraces.scale
    rw [Path.mapped, hsx, hsy, htx, hty, Prod.ext_iff, Prod.ext_iff]
    exact and_congr (transform_eq_self hx) (transform_eq_self hy)

end Counts

/-- A triangle with a lift to its last point. -/
theorem handsOverPath_iff_lifted :
    (HandsOverPath Path.mapped (0, 0) [.draw 4 0, .lift 4 4] ↔
      [PathCall.draw 4 0, .lift 4 4].length ≤ 32768 ∧
        ([PathCall.draw 4 0, .lift 4 4].length + 1 < 3 ∨
          [PathCall.draw 4 0, .lift 4 4].countP PathCall.isLift = 1)) ∧
      (HandsOverPath (fun _ q => q) (0, 0) [.draw 4 0, .lift 4 4] ↔
        [PathCall.draw 4 0, .lift 4 4].length ≤ 32768 ∧
          ([PathCall.draw 4 0, .lift 4 4].length + 1 < 3 ∨
            [PathCall.draw 4 0, .lift 4 4].countP PathCall.isLift = 1 ∧
              ∀ q ∈ (strokes (0, 0) [.draw 4 0, .lift 4 4]).points, q = (0, 0))) :=
  handsOverPath_iff ⟨⟨⟨by decide, by decide⟩, by decide, by decide⟩, fun c hc => by
    rcases List.mem_cons.mp hc with rfl | hc
    · exact ⟨⟨by decide, by decide⟩, by decide, by decide⟩
    · obtain rfl := List.mem_singleton.mp hc
      exact ⟨⟨by decide, by decide⟩, by decide, by decide⟩⟩

/-- A triangle is handed over with a count of 4. -/
theorem not_handsOverPath_triangle :
    ¬ ∀ start calls, CallsFit start calls → calls.length + 1 < 65536 →
      HandsOverPath Path.mapped start calls := by
  intro hall
  have hfit : CallsFit (0, 0) [.draw 4 0, .draw 4 4] := by
    refine ⟨⟨⟨by decide, by decide⟩, by decide, by decide⟩, fun c hc => ?_⟩
    rcases List.mem_cons.mp hc with rfl | hc
    · exact ⟨⟨by decide, by decide⟩, by decide, by decide⟩
    · obtain rfl := List.mem_singleton.mp hc
      exact ⟨⟨by decide, by decide⟩, by decide, by decide⟩
  obtain ⟨fuel, p, hmade, hover⟩ := hall _ _ hfit (by decide) ⟨id, fun _ => Nat.le_refl _,
    fun _ _ => 0⟩
  obtain ⟨htraces, -⟩ := makePath_spec hfit hmade
  have hcounts : (strokes (0, 0) [.draw 4 0, .draw 4 4]).handedCounts = _ :=
    (hover _ (closeArgs_eq htraces (by decide))).counts
  exact absurd hcounts (by decide)

end Nolrem.Cd
