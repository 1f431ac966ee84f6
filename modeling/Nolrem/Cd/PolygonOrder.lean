import Mathlib.Algebra.Order.Ring.Abs
import Mathlib.Data.List.Zip
import Mathlib.Data.Set.Lattice
import Mathlib.Order.CompletePartialOrder
import Mathlib.Tactic.Ring
import Nolrem.Cd.PolygonFill

/-!
# The order of the points

Whether the region of `CdCreatePolyPolygonRegion` depends on the order in which a polygon has its
points, and whether it fits to that of a polygon on the other side of an edge. The division rounds
each crossing towards the point where its edge begins.
-/

namespace Nolrem.Cd

open Nolrem.Lib

/-! ## Exact crossings -/

/-- On which side of the line from `p` to `q` the point is, and how far. -/
def side (p q : Int × Int) (x y : Int) : Int := (x - p.1) * (q.2 - p.2) - (q.1 - p.1) * (y - p.2)

/-- How far `x` is to the right of where row `y` crosses the edge, times the height of the edge. -/
def Edge.offset (edge : Edge) (x y : Int) : Int := edge.direction * side edge.1 edge.2 x y

/-- The row crosses the edge behind `x` and before `x + 1`. -/
def Edge.Between (edge : Edge) (x y : Int) : Prop :=
  edge.offset x y < 0 ∧ 0 < edge.offset (x + 1) y

instance (edge : Edge) (x y : Int) : Decidable (edge.Between x y) :=
  inferInstanceAs (Decidable (_ ∧ _))

section Exact

variable {edge : Edge} {x y : Int}

theorem side_swap (p q : Int × Int) (x y : Int) : side q p x y = -side p q x y := by
  unfold side
  ring

theorem Edge.crosses_swap : Edge.Crosses edge.swap y ↔ edge.Crosses y := or_comm

theorem Edge.Crosses.ne (h : edge.Crosses y) : edge.1.2 ≠ edge.2.2 := by
  rcases h with h | h <;> omega

theorem Edge.direction_swap (h : edge.1.2 ≠ edge.2.2) :
    Edge.direction edge.swap = -edge.direction := by
  unfold Edge.direction
  dsimp only [Prod.fst_swap, Prod.snd_swap]
  split_ifs <;> omega

theorem Edge.offset_swap (h : edge.1.2 ≠ edge.2.2) (x : Int) :
    Edge.offset edge.swap x y = edge.offset x y := by
  unfold Edge.offset
  rw [Edge.direction_swap h, Prod.fst_swap, Prod.snd_swap, side_swap, neg_mul_neg]

/-- A quotient that is rounded to 0, from the left or from the right. -/
theorem tdiv_le_iff {w t d k : Int} (ht : 0 ≤ t) (hd : 0 < d) : (w * t).tdiv d ≤ k ↔
    0 ≤ k * d - w * t ∨ (k * d - w * t < 0 ∧ 0 < (k + 1) * d - w * t) ∧ 0 < w := by
  have hsucc : (k + 1) * d = k * d + d := by ring
  rcases lt_or_ge 0 w with hw | hw
  · have h0 : 0 ≤ w * t := Int.mul_nonneg hw.le ht
    rw [Int.tdiv_eq_ediv_of_nonneg h0, ← Int.lt_add_one_iff, Int.ediv_lt_iff_lt_mul hd]
    omega
  · have h0 : 0 ≤ -w * t := Int.mul_nonneg (by omega) ht
    have hneg : (w * t).tdiv d = -((-w * t) / d) := by
      rw [← Int.tdiv_eq_ediv_of_nonneg h0, Int.neg_mul, Int.neg_tdiv, Int.neg_neg]
    have hle := Int.le_ediv_iff_mul_le (a := -k) (b := -w * t) hd
    rw [Int.neg_mul, Int.neg_mul] at hle
    rw [hneg, Int.neg_mul]
    omega

/--
The edges that go to the right have their crossings rounded down, those that go to the left have
them rounded up.
-/
theorem Edge.crossingX_le_iff (h : edge.Crosses y) : edge.crossingX y ≤ x ↔
    0 ≤ edge.offset x y ∨ edge.Between x y ∧ edge.1.1 < edge.2.1 := by
  unfold Edge.crossingX Edge.Between Edge.offset side Edge.direction
  rcases h with ⟨h0, h1⟩ | ⟨h1, h0⟩
  · have hround := tdiv_le_iff (w := edge.2.1 - edge.1.1) (t := y - edge.1.2)
      (d := edge.2.2 - edge.1.2) (k := x - edge.1.1) (by omega) (by omega)
    rw [if_pos (by omega), Int.one_mul, Int.one_mul, ← sub_add_eq_add_sub]
    omega
  · have hround := tdiv_le_iff (w := edge.2.1 - edge.1.1) (t := edge.1.2 - y)
      (d := edge.1.2 - edge.2.2) (k := x - edge.1.1) (by omega) (by omega)
    have hquot : ((edge.2.1 - edge.1.1) * (y - edge.1.2)).tdiv (edge.2.2 - edge.1.2) =
        ((edge.2.1 - edge.1.1) * (edge.1.2 - y)).tdiv (edge.1.2 - edge.2.2) := by
      rw [← Int.neg_tdiv_neg, ← Int.mul_neg, Int.neg_sub, Int.neg_sub]
    have hoffset (k : Int) : -1 * (k * (edge.2.2 - edge.1.2) -
        (edge.2.1 - edge.1.1) * (y - edge.1.2)) =
          k * (edge.1.2 - edge.2.2) - (edge.2.1 - edge.1.1) * (edge.1.2 - y) := by
      ring
    rw [if_neg (by omega), hquot, hoffset, hoffset, ← sub_add_eq_add_sub]
    omega

theorem Edge.crossingX_swap_le_iff (h : edge.Crosses y) : Edge.crossingX edge.swap y ≤ x ↔
    0 ≤ edge.offset x y ∨ edge.Between x y ∧ edge.2.1 < edge.1.1 := by
  rw [Edge.crossingX_le_iff (Edge.crosses_swap.mpr h), Edge.Between, Edge.offset_swap h.ne,
    Edge.offset_swap h.ne]
  rfl

end Exact

/-! ## Other orders of the points -/

section Order

variable {points : List (Int × Int)} {mode y : Int}

theorem edgesOf_rotate (points : List (Int × Int)) (k : Nat) :
    edgesOf (points.rotate k) = (edgesOf points).rotate k := by
  unfold edgesOf
  rw [List.length_rotate]
  split_ifs
  · exact (List.rotate_nil k).symm
  · rw [List.rotate_rotate, Nat.add_comm, ← List.rotate_rotate]
    exact (List.zipWith_rotate_distrib _ points _ k (List.length_rotate ..).symm).symm

/-- The edges of the reversed polygon, each of them from its other end. -/
theorem edgesOf_reverse_perm (points : List (Int × Int)) :
    (edgesOf points.reverse).Perm ((edgesOf points).map Prod.swap) := by
  unfold edgesOf
  rw [List.length_reverse]
  split_ifs with hfew
  · exact List.Perm.nil
  · have hback : points.reverse.zip (points.reverse.rotate 1) =
        (points.zip (points.rotate (points.length - 1))).reverse := by
      rw [List.rotate_reverse, Nat.mod_eq_of_lt (by omega)]
      exact (List.reverse_zipWith (List.length_rotate ..).symm).symm
    have hturn : (points.zip (points.rotate (points.length - 1))).rotate 1 =
        (points.rotate 1).zip points := by
      have hrot := List.zipWith_rotate_distrib Prod.mk points
        (points.rotate (points.length - 1)) 1 (List.length_rotate ..).symm
      rw [List.rotate_rotate, Nat.sub_add_cancel (by omega), List.rotate_length] at hrot
      exact hrot
    rw [hback, List.zip_swap, ← hturn]
    exact (List.reverse_perm _).trans (List.rotate_perm _ 1).symm

theorem crossings_singleton (points : List (Int × Int)) (y : Int) :
    crossings [points] y = (edgesOf points).filter fun edge => edge.Crosses y := by
  unfold crossings
  rw [List.flatMap_singleton]

theorem crossings_rotate_perm (points : List (Int × Int)) (k : Nat) (y : Int) :
    (crossings [points.rotate k] y).Perm (crossings [points] y) := by
  rw [crossings_singleton, crossings_singleton, edgesOf_rotate]
  exact (List.rotate_perm _ k).filter _

theorem crossings_reverse_perm (points : List (Int × Int)) (y : Int) :
    (crossings [points.reverse] y).Perm ((crossings [points] y).map Prod.swap) := by
  rw [crossings_singleton, crossings_singleton]
  refine ((edgesOf_reverse_perm points).filter _).trans (List.Perm.of_eq ?_)
  rw [List.filter_map]
  refine congrArg (List.map Prod.swap) (List.filter_congr fun edge _ => ?_)
  exact decide_eq_decide.mpr Edge.crosses_swap

end Order

/-! ## Polygons of small coordinates -/

/-- The coordinates have 14 bits. -/
def InRange (points : List (Int × Int)) : Prop :=
  ∀ p ∈ points, (-8192 ≤ p.1 ∧ p.1 ≤ 8191) ∧ -8192 ≤ p.2 ∧ p.2 ≤ 8191

/-- There is room for the points, and for the crossings of each row. -/
structure Roomy (points : List (Int × Int)) : Prop where
  total : FitsInt points.length
  few : ∀ y, (crossings [points] y).length ≤ 32768

section InRange

variable {points : List (Int × Int)} {edge : Edge} {mode y : Int}

theorem InRange.perm {points' : List (Int × Int)} (h : InRange points)
    (hp : points'.Perm points) : InRange points' := fun p hmem => h p (hp.mem_iff.mp hmem)

theorem InRange.inInt16 (h : InRange points) : InInt16 [points] := by
  intro points' hp p hmem
  obtain rfl := List.mem_singleton.mp hp
  have hrange := h p hmem
  unfold int16s
  rw [Set.mem_Icc, Set.mem_Icc]
  omega

theorem InRange.ends (h : InRange points) (he : edge ∈ crossings [points] y) :
    ((-8192 ≤ edge.1.1 ∧ edge.1.1 ≤ 8191) ∧ -8192 ≤ edge.1.2 ∧ edge.1.2 ≤ 8191) ∧
      (-8192 ≤ edge.2.1 ∧ edge.2.1 ≤ 8191) ∧ -8192 ≤ edge.2.2 ∧ edge.2.2 ≤ 8191 := by
  obtain ⟨⟨points', hp, hedge⟩, -⟩ := mem_crossings.mp he
  obtain rfl := List.mem_singleton.mp hp
  obtain ⟨-, h1, h2⟩ := mem_edgesOf hedge
  exact ⟨h _ h1, h _ h2⟩

theorem InRange.product (h : InRange points) (he : edge ∈ crossings [points] y) :
    FitsInt (edge.product y) := by
  obtain ⟨⟨hx0, hy0⟩, hx1, hy1⟩ := h.ends he
  have hbelow : |y - edge.1.2| ≤ 16383 := by
    rw [abs_le]
    rcases (mem_crossings.mp he).2 with hc | hc <;> omega
  have hwidth : |edge.2.1 - edge.1.1| ≤ 16383 := by
    rw [abs_le]
    omega
  have hmul : |edge.product y| ≤ 16383 * 16383 := by
    unfold Edge.product
    rw [abs_mul]
    exact mul_le_mul hwidth hbelow (abs_nonneg _) (by decide)
  have hboth := abs_le.mp hmul
  unfold FitsInt
  omega

theorem InRange.drawable_iff (h : InRange points) : Drawable [points] ↔ Roomy points := by
  have htotal : [points].flatten.length = points.length := by
    rw [List.flatten_singleton]
  exact ⟨fun hd => ⟨by rw [← htotal]; exact hd.total, hd.few⟩, fun hr =>
    ⟨by rw [htotal]; exact hr.total, fun y edge he => h.product he, hr.few⟩⟩

theorem InRange.sortedRow (h : InRange points) :
    ∀ i ∈ Cd.sortedRow [points] y, -8192 ≤ i.x ∧ i.x ≤ 8191 := by
  intro i hi
  obtain ⟨edge, he, rfl⟩ := List.mem_map.mp ((sortedRow_perm h.inInt16).mem_iff.mp hi)
  have hends := h.ends he
  have hbetween := Edge.crossingX_between (mem_crossings.mp he).2
  show -8192 ≤ edge.crossingX y ∧ edge.crossingX y ≤ 8191
  omega

/-- Fourteen bits can count the spans of a row. -/
theorem InRange.fewSpans (h : InRange points) (mode : Int) : FewSpans [points] mode := by
  intro y
  have hsorted := sortedRow_sorted [points] y
  have hlen : ((fillSpans mode (Cd.sortedRow [points] y)).length : Int) ≤ 8191 - -8192 := by
    unfold fillSpans
    split_ifs
    · rw [alternateSpans_eq hsorted h.inInt16.sortedRow]
      refine length_evenOdd_le (List.pairwise_map.mpr hsorted) (by decide) fun a ha => ?_
      obtain ⟨i, hi, rfl⟩ := List.mem_map.mp ha
      exact h.sortedRow i hi
    · rw [windingSpans_eq hsorted h.inInt16.sortedRow fun h => absurd rfl h]
      refine length_nonZero_le (List.pairwise_map.mpr hsorted) (by decide)
        (fun h => absurd rfl h) fun p hp => ?_
      obtain ⟨i, hi, rfl⟩ := List.mem_map.mp hp
      exact h.sortedRow i hi
  omega

end InRange

/-- A call returns, with a region of these pixels. -/
def HasPixels (e : Allocator) (h : RegionHeap) (points : List (Int × Int)) (mode : Int)
    (shape : Set (Int × Int)) : Prop :=
  ∃ fuel h' rgn, createRegion e fuel h [points] mode = some (h', rgn) ∧ pixels h' rgn = shape

theorem InRange.hasPixels_iff {points : List (Int × Int)} (hr : InRange points) (e : Allocator)
    (h : RegionHeap) (mode : Int) {shape : Set (Int × Int)} :
    HasPixels e h points mode shape ↔
      Roomy points ∧ shape = { v | Filled [points] mode v.1 v.2 } := by
  have hshape : pixels (regionOf h [points] mode).1 (regionOf h [points] mode).2 =
      { v | Filled [points] mode v.1 v.2 } :=
    Set.ext fun v => mem_pixels_regionOf h hr.inInt16 (hr.fewSpans mode)
  constructor
  · rintro ⟨fuel, h', rgn, hcreate, rfl⟩
    obtain ⟨hd, hregion⟩ := createRegion_spec hr.inInt16 hcreate
    rw [← hshape, ← hregion]
    exact ⟨hr.drawable_iff.mp hd, rfl⟩
  · rintro ⟨hroomy, rfl⟩
    exact ⟨13, _, _, createRegion_of_drawable e h mode hr.inInt16 (hr.drawable_iff.mpr hroomy)
      (by decide), hshape⟩

/-! ## The fill rule -/

/-- The sum of the directions. -/
def winding (edges : List Edge) : Int := (edges.map Edge.direction).sum

/-- What the rule asks of the edges up to a pixel that is filled. -/
def Uneven (mode : Int) (edges : List Edge) : Prop :=
  if mode = polygonAlternate then Odd edges.length else winding edges ≠ 0

/-- The edges that cross the row in front of the pixel. -/
def passed (points : List (Int × Int)) (x y : Int) : List Edge :=
  (crossings [points] y).filter fun edge => 0 ≤ edge.offset x y

/-- The edges to the right that cross the row inside of the pixel. -/
def rightward (points : List (Int × Int)) (x y : Int) : List Edge :=
  (crossings [points] y).filter fun edge => edge.Between x y ∧ edge.1.1 < edge.2.1

def leftward (points : List (Int × Int)) (x y : Int) : List Edge :=
  (crossings [points] y).filter fun edge => edge.Between x y ∧ edge.2.1 < edge.1.1

section Uneven

variable {points : List (Int × Int)} {edges edges' : List Edge} {mode x y : Int}

theorem not_uneven_nil (mode : Int) : ¬ Uneven mode [] := by
  unfold Uneven
  split_ifs
  · exact fun h => by simp at h
  · exact fun h => h rfl

theorem winding_append (edges edges' : List Edge) :
    winding (edges ++ edges') = winding edges + winding edges' := by
  unfold winding
  rw [List.map_append, List.sum_append]

theorem uneven_perm (h : edges.Perm edges') : Uneven mode edges ↔ Uneven mode edges' := by
  unfold Uneven winding
  rw [h.length_eq, (h.map Edge.direction).sum_eq]

/-- What is left of an even number, or of a sum of 0. -/
theorem uneven_append_left (heven : Even (edges ++ edges').length)
    (hsum : winding (edges ++ edges') = 0) : Uneven mode edges ↔ Uneven mode edges' := by
  unfold Uneven
  rw [List.length_append, Nat.even_add] at heven
  rw [winding_append] at hsum
  split_ifs
  · rw [← Nat.not_even_iff_odd, ← Nat.not_even_iff_odd, heven]
  · omega

theorem winding_map_swap (h : ∀ edge ∈ edges, edge.1.2 ≠ edge.2.2) :
    winding (edges.map Prod.swap) = -winding edges := by
  induction edges with
  | nil => rfl
  | cons edge edges ih =>
    obtain ⟨hedge, hrest⟩ := List.forall_mem_cons.mp h
    have htail := ih hrest
    unfold winding at htail ⊢
    rw [List.map_cons, List.map_cons, List.sum_cons, htail, Edge.direction_swap hedge,
      List.map_cons, List.sum_cons, Int.neg_add]

theorem uneven_map_swap (h : ∀ edge ∈ edges, edge.1.2 ≠ edge.2.2) :
    Uneven mode (edges.map Prod.swap) ↔ Uneven mode edges := by
  unfold Uneven
  rw [winding_map_swap h, List.length_map, neg_ne_zero]

theorem uneven_crossings_compl (points : List (Int × Int)) (p : Edge → Bool) :
    Uneven mode ((crossings [points] y).filter p) ↔
      Uneven mode ((crossings [points] y).filter fun edge => !p edge) := by
  have hperm := List.filter_append_perm p (crossings [points] y)
  refine uneven_append_left ?_ ?_
  · rw [hperm.length_eq]
    exact even_crossings [points] y
  · exact ((hperm.map Edge.direction).sum_eq).trans (sum_direction [points] y)

/-- An edge in front of the pixel does not cross the row inside of it. -/
theorem Edge.Between.not_passed {edge : Edge} (h : edge.Between x y) : ¬ 0 ≤ edge.offset x y :=
  not_le.mpr h.1

theorem filter_passed_or {q : Edge → Prop} [DecidablePred q]
    (hq : ∀ edge, q edge → ¬ 0 ≤ edge.offset x y) :
    ((crossings [points] y).filter fun edge => 0 ≤ edge.offset x y ∨ q edge).Perm
      (passed points x y ++ (crossings [points] y).filter fun edge => q edge) := by
  refine (List.filter_append_perm (fun edge : Edge => 0 ≤ edge.offset x y) _).symm.trans
    (List.Perm.of_eq ?_)
  rw [List.filter_filter, List.filter_filter]
  refine congrArg₂ (· ++ ·) (List.filter_congr fun edge _ => ?_)
    (List.filter_congr fun edge _ => ?_)
  · by_cases hp : 0 ≤ edge.offset x y <;> simp [hp]
  · by_cases hp : 0 ≤ edge.offset x y
    · have hno : ¬ q edge := fun h => hq edge h hp
      simp [hp, hno]
    · simp [hp]

theorem filled_iff : Filled [points] mode x y ↔
    Uneven mode (passed points x y ++ rightward points x y) := by
  refine Iff.trans ?_ (uneven_perm (filter_passed_or fun edge h => h.1.not_passed))
  have hfilter : ((crossings [points] y).filter fun edge => edge.crossingX y ≤ x) =
      (crossings [points] y).filter fun edge =>
        0 ≤ edge.offset x y ∨ edge.Between x y ∧ edge.1.1 < edge.2.1 :=
    List.filter_congr fun edge he =>
      decide_eq_decide.mpr (Edge.crossingX_le_iff (mem_crossings.mp he).2)
  rw [← hfilter]
  exact Iff.rfl

/-- The edges to the left change places with those to the right. -/
theorem filled_reverse_iff : Filled [points.reverse] mode x y ↔
    Uneven mode (passed points x y ++ leftward points x y) := by
  refine Iff.trans ?_ (uneven_perm (filter_passed_or fun edge h => h.1.not_passed))
  have hfilter : ((crossings [points] y).filter fun edge => Edge.crossingX edge.swap y ≤ x) =
      (crossings [points] y).filter fun edge =>
        0 ≤ edge.offset x y ∨ edge.Between x y ∧ edge.2.1 < edge.1.1 :=
    List.filter_congr fun edge he =>
      decide_eq_decide.mpr (Edge.crossingX_swap_le_iff (mem_crossings.mp he).2)
  have hperm := (crossings_reverse_perm points y).filter fun edge => edge.crossingX y ≤ x
  rw [List.filter_map] at hperm
  rw [← hfilter, ← uneven_map_swap fun edge he =>
    (mem_crossings.mp (List.mem_of_mem_filter he)).2.ne]
  exact uneven_perm hperm

theorem filled_rotate_iff (k : Nat) :
    Filled [points.rotate k] mode x y ↔ Filled [points] mode x y :=
  uneven_perm ((crossings_rotate_perm points k y).filter _)

end Uneven

/-! ## The same region -/

/-- Both calls return, with regions of the same pixels. -/
def SameRegion (e : Allocator) (h : RegionHeap) (points points' : List (Int × Int)) (mode : Int) :
    Prop :=
  ∃ shape, HasPixels e h points mode shape ∧ HasPixels e h points' mode shape

/--
The edges to the right inside of a pixel do for it what those to the left do: there is an even
number of both together, or both leave the winding number 0 or neither does.
-/
def RoundsAlike (points : List (Int × Int)) (mode : Int) : Prop :=
  ∀ x y, if mode = polygonAlternate then
      Even ((rightward points x y).length + (leftward points x y).length)
    else winding (passed points x y) + winding (rightward points x y) = 0 ↔
      winding (passed points x y) + winding (leftward points x y) = 0

section Same

variable {points points' : List (Int × Int)} {mode : Int}

theorem roomy_congr (htotal : points'.length = points.length)
    (hlen : ∀ y, (crossings [points'] y).length = (crossings [points] y).length) :
    Roomy points' ↔ Roomy points :=
  ⟨fun ⟨h1, h2⟩ => ⟨htotal ▸ h1, fun y => (hlen y).symm.trans_le (h2 y)⟩,
    fun ⟨h1, h2⟩ => ⟨htotal.symm ▸ h1, fun y => (hlen y).trans_le (h2 y)⟩⟩

theorem roomy_rotate (k : Nat) : Roomy (points.rotate k) ↔ Roomy points :=
  roomy_congr (List.length_rotate ..) fun y => (crossings_rotate_perm points k y).length_eq

theorem roomy_reverse : Roomy points.reverse ↔ Roomy points :=
  roomy_congr List.length_reverse fun y =>
    (crossings_reverse_perm points y).length_eq.trans (List.length_map _)

/-- Polygons that have room for the same are compared pixel by pixel. -/
theorem sameRegion_iff (hr : InRange points) (hr' : InRange points')
    (hroomy : Roomy points' ↔ Roomy points) (e : Allocator) (h : RegionHeap) :
    SameRegion e h points points' mode ↔
      Roomy points ∧ ∀ x y, Filled [points] mode x y ↔ Filled [points'] mode x y := by
  unfold SameRegion
  constructor
  · rintro ⟨shape, hshape, hshape'⟩
    obtain ⟨hroom, rfl⟩ := (hr.hasPixels_iff e h mode).mp hshape
    obtain ⟨-, hsame⟩ := (hr'.hasPixels_iff e h mode).mp hshape'
    exact ⟨hroom, fun x y => Set.ext_iff.mp hsame (x, y)⟩
  · rintro ⟨hroom, hsame⟩
    exact ⟨_, (hr.hasPixels_iff e h mode).mpr ⟨hroom, rfl⟩,
      (hr'.hasPixels_iff e h mode).mpr ⟨hroomy.mpr hroom, Set.ext fun v => hsame v.1 v.2⟩⟩

theorem sameRegion_rotate_iff (hr : InRange points) (e : Allocator) (h : RegionHeap) (mode : Int)
    (k : Nat) : SameRegion e h points (points.rotate k) mode ↔ Roomy points := by
  rw [sameRegion_iff hr (hr.perm (List.rotate_perm points k)) (roomy_rotate k)]
  exact and_iff_left fun x y => (filled_rotate_iff k).symm

theorem roundsAlike_iff : RoundsAlike points mode ↔
    ∀ x y, Filled [points] mode x y ↔ Filled [points.reverse] mode x y := by
  refine forall₂_congr fun x y => ?_
  rw [filled_iff, filled_reverse_iff]
  unfold Uneven
  split_ifs
  · rw [List.length_append, List.length_append, Nat.even_add, ← Nat.not_even_iff_odd,
      ← Nat.not_even_iff_odd, Nat.even_add, Nat.even_add]
    tauto
  · rw [winding_append, winding_append, ne_eq, ne_eq, not_iff_not]

theorem sameRegion_reverse_iff (hr : InRange points) (e : Allocator) (h : RegionHeap) (mode : Int) :
    SameRegion e h points points.reverse mode ↔ Roomy points ∧ RoundsAlike points mode := by
  rw [sameRegion_iff hr (hr.perm (List.reverse_perm points)) roomy_reverse, roundsAlike_iff]

end Same

/-! ## Polygons on both sides of an edge -/

/-- How many rows the edge crosses. -/
def Edge.height (edge : Edge) : Int := edge.direction * (edge.2.2 - edge.1.2)

section Sides

variable {s edge : Edge} {points : List (Int × Int)} {mode x y : Int}

theorem Edge.height_nonneg (edge : Edge) : 0 ≤ edge.height := by
  unfold Edge.height Edge.direction
  split_ifs <;> omega

theorem Edge.height_pos (h : edge.1.2 ≠ edge.2.2) : 0 < edge.height := by
  unfold Edge.height Edge.direction
  split_ifs <;> omega

theorem Edge.offset_succ (edge : Edge) (x y : Int) :
    edge.offset (x + 1) y = edge.offset x y + edge.height := by
  unfold Edge.offset Edge.height side
  ring

/-- A row crosses an edge that goes straight down or up at a pixel, not inside of one. -/
theorem Edge.Between.sloped (h : edge.Between x y) : edge.1.1 ≠ edge.2.1 := by
  intro hvertical
  have hoffset (k : Int) : edge.offset k y = (k - edge.1.1) * edge.height := by
    unfold Edge.offset Edge.height side
    rw [hvertical]
    ring
  obtain ⟨hleft, hright⟩ := h
  rw [hoffset] at hleft hright
  have hx : x - edge.1.1 < 0 := by
    by_contra hge
    exact hleft.not_ge (Int.mul_nonneg (not_lt.mp hge) edge.height_nonneg)
  have hx' : (x + 1 - edge.1.1) * edge.height ≤ 0 :=
    Int.mul_nonpos_of_nonpos_of_nonneg (by omega) edge.height_nonneg
  omega

theorem Edge.Between.not_flat (h : edge.Between x y) : edge.1.2 ≠ edge.2.2 := by
  intro hflat
  have hheight : edge.height = 0 := by
    unfold Edge.height
    rw [hflat, Int.sub_self, Int.mul_zero]
  obtain ⟨hleft, hright⟩ := h
  rw [Edge.offset_succ, hheight] at hright
  omega

/-- The offset from an edge changes from end to end of another and then to the right. -/
theorem Edge.height_mul_offset (s edge : Edge) (x y : Int) : edge.height * s.offset x y =
    edge.direction * (edge.2.2 - y) * s.offset edge.1.1 edge.1.2 +
      edge.direction * (y - edge.1.2) * s.offset edge.2.1 edge.2.2 +
        s.height * edge.offset x y := by
  unfold Edge.height Edge.offset side
  ring

theorem Edge.Crosses.parts (h : edge.Crosses y) :
    0 ≤ edge.direction * (edge.2.2 - y) ∧ 0 ≤ edge.direction * (y - edge.1.2) := by
  unfold Edge.direction
  rcases h with h | h
  · rw [if_pos (by omega)]
    omega
  · rw [if_neg (by omega)]
    omega

/-- Where `s` is crossed or has been, an edge before it has been crossed. -/
theorem Edge.Crosses.passed_of_before (h : edge.Crosses y) (hs : s.1.2 ≠ s.2.2)
    (h1 : s.offset edge.1.1 edge.1.2 ≤ 0) (h2 : s.offset edge.2.1 edge.2.2 ≤ 0) :
    (0 ≤ s.offset x y → 0 ≤ edge.offset x y) ∧ (0 < s.offset x y → 0 < edge.offset x y) := by
  have hline := Edge.height_mul_offset s edge x y
  have hends := add_nonpos (Int.mul_nonpos_of_nonneg_of_nonpos h.parts.1 h1)
    (Int.mul_nonpos_of_nonneg_of_nonpos h.parts.2 h2)
  refine ⟨fun hx => ?_, fun hx => ?_⟩
  · have hmul : 0 ≤ edge.height * s.offset x y := Int.mul_nonneg edge.height_nonneg hx
    exact nonneg_of_mul_nonneg_right (by omega) (Edge.height_pos hs)
  · have hmul : 0 < edge.height * s.offset x y := Int.mul_pos (Edge.height_pos h.ne) hx
    exact pos_of_mul_pos_right (by omega) s.height_nonneg

/-- Where `s` has not been crossed, an edge behind it has not been either. -/
theorem Edge.Crosses.ahead_of_behind (h : edge.Crosses y) (hs : s.1.2 ≠ s.2.2)
    (h1 : 0 ≤ s.offset edge.1.1 edge.1.2) (h2 : 0 ≤ s.offset edge.2.1 edge.2.2) :
    (s.offset x y ≤ 0 → edge.offset x y ≤ 0) ∧ (s.offset x y < 0 → edge.offset x y < 0) := by
  have hline := Edge.height_mul_offset s edge x y
  have hends := add_nonneg (Int.mul_nonneg h.parts.1 h1) (Int.mul_nonneg h.parts.2 h2)
  refine ⟨fun hx => ?_, fun hx => ?_⟩
  · by_contra hpos
    have hmul : 0 < s.height * edge.offset x y :=
      Int.mul_pos (Edge.height_pos hs) (not_le.mp hpos)
    have hneg : edge.height * s.offset x y ≤ 0 :=
      Int.mul_nonpos_of_nonneg_of_nonpos edge.height_nonneg hx
    omega
  · by_contra hpos
    have hmul : 0 ≤ s.height * edge.offset x y :=
      Int.mul_nonneg s.height_nonneg (not_lt.mp hpos)
    have hneg : edge.height * s.offset x y < 0 :=
      Int.mul_neg_of_pos_of_neg (Edge.height_pos h.ne) hx
    omega

/-- In a pixel behind which nothing is crossed. -/
theorem filled_iff_leftward (h : ∀ edge ∈ crossings [points] y, 0 < edge.offset (x + 1) y) :
    Filled [points] mode x y ↔ Uneven mode (leftward points x y) := by
  have hleft : ((crossings [points] y).filter fun edge => !decide (edge.crossingX y ≤ x)) =
      leftward points x y := by
    refine List.filter_congr fun edge he => ?_
    rw [← decide_not]
    refine decide_eq_decide.mpr ?_
    have hbetween : ¬ 0 ≤ edge.offset x y ↔ edge.Between x y :=
      ⟨fun hlt => ⟨not_le.mp hlt, h edge he⟩, Edge.Between.not_passed⟩
    rw [Edge.crossingX_le_iff (mem_crossings.mp he).2, not_or, hbetween]
    refine and_congr_right fun hb => ?_
    have hne := hb.sloped
    rw [and_iff_right hb]
    omega
  rw [← hleft]
  exact uneven_crossings_compl points fun edge => edge.crossingX y ≤ x

/-- In a pixel in front of which nothing is crossed. -/
theorem filled_iff_rightward (h : ∀ edge ∈ crossings [points] y, edge.offset x y < 0) :
    Filled [points] mode x y ↔ Uneven mode (rightward points x y) := by
  have hpassed : passed points x y = [] :=
    List.filter_eq_nil_iff.mpr fun edge he => by simpa using h edge he
  rw [filled_iff, hpassed, List.nil_append]

end Sides

/-! ## Two polygons -/

/-- The polygons share an edge, and lie on opposite sides of it. -/
structure Adjacent (a b : List (Int × Int)) (s t : Edge) : Prop where
  left : s ∈ edgesOf a
  right : t ∈ edgesOf b
  same : t = s ∨ t = s.swap
  ends : s.1 ≠ s.2
  before : ∀ p ∈ a, s.offset p.1 p.2 ≤ 0
  behind : ∀ p ∈ b, 0 ≤ s.offset p.1 p.2

/--
Both regions exist and have no pixel in common, and one of them has each pixel that is behind the
edge as one polygon draws it and in front of it as the other does.
-/
def Tiles (e : Allocator) (h h' : RegionHeap) (a b : List (Int × Int)) (s t : Edge) (mode : Int) :
    Prop :=
  ∃ left right, HasPixels e h a mode left ∧ HasPixels e h' b mode right ∧ Disjoint left right ∧
    ∀ x y, s.Crosses y → ¬ (s.crossingX y ≤ x ↔ t.crossingX y ≤ x) → (x, y) ∈ left ∪ right

/--
A pixel that the line of the edge goes through is not filled from both sides, and is filled from
one if the edge itself goes through it, one way in one polygon and the other way in the other.
-/
def MeetsAlong (a b : List (Int × Int)) (s t : Edge) (mode : Int) : Prop :=
  ∀ x y, s.Between x y →
    ¬ (Uneven mode (leftward a x y) ∧ Uneven mode (rightward b x y)) ∧
      (s.Crosses y → s ≠ t → Uneven mode (leftward a x y) ∨ Uneven mode (rightward b x y))

section Adjacent

variable {a b : List (Int × Int)} {s t : Edge} {mode x y : Int}

theorem Adjacent.before_crossing (h : Adjacent a b s t) (hs : s.1.2 ≠ s.2.2) {edge : Edge}
    (he : edge ∈ crossings [a] y) :
    (0 ≤ s.offset x y → 0 ≤ edge.offset x y) ∧ (0 < s.offset x y → 0 < edge.offset x y) := by
  obtain ⟨⟨points, hp, hedge⟩, hcross⟩ := mem_crossings.mp he
  obtain rfl := List.mem_singleton.mp hp
  obtain ⟨-, h1, h2⟩ := mem_edgesOf hedge
  exact hcross.passed_of_before hs (h.before _ h1) (h.before _ h2)

theorem Adjacent.behind_crossing (h : Adjacent a b s t) (hs : s.1.2 ≠ s.2.2) {edge : Edge}
    (he : edge ∈ crossings [b] y) :
    (s.offset x y ≤ 0 → edge.offset x y ≤ 0) ∧ (s.offset x y < 0 → edge.offset x y < 0) := by
  obtain ⟨⟨points, hp, hedge⟩, hcross⟩ := mem_crossings.mp he
  obtain rfl := List.mem_singleton.mp hp
  obtain ⟨-, h1, h2⟩ := mem_edgesOf hedge
  exact hcross.ahead_of_behind hs (h.behind _ h1) (h.behind _ h2)

theorem Adjacent.filled_left (h : Adjacent a b s t) (hs : s.1.2 ≠ s.2.2)
    (hx : 0 < s.offset (x + 1) y) :
    Filled [a] mode x y ↔ Uneven mode (leftward a x y) :=
  filled_iff_leftward fun _ he => (h.before_crossing hs he).2 hx

theorem Adjacent.filled_right (h : Adjacent a b s t) (hs : s.1.2 ≠ s.2.2)
    (hx : s.offset x y < 0) :
    Filled [b] mode x y ↔ Uneven mode (rightward b x y) :=
  filled_iff_rightward fun _ he => (h.behind_crossing hs he).2 hx

/-- No edge crosses the row inside of the pixel. -/
theorem inside_eq_nil (h : ∀ edge ∈ crossings [a] y, ¬ edge.Between x y) :
    leftward a x y = [] ∧ rightward a x y = [] :=
  ⟨List.filter_eq_nil_iff.mpr fun edge he => by simp [h edge he],
    List.filter_eq_nil_iff.mpr fun edge he => by simp [h edge he]⟩

/-- Only pixels that the line goes through may be filled from both sides. -/
theorem Adjacent.between_of_filled (h : Adjacent a b s t) (hs : s.1.2 ≠ s.2.2)
    (ha : Filled [a] mode x y) (hb : Filled [b] mode x y) : s.Between x y := by
  have hheight := Edge.height_pos hs
  have hsucc := Edge.offset_succ s x y
  constructor
  · by_contra hge
    rw [h.filled_left hs (by omega)] at ha
    have hnil := inside_eq_nil fun edge he (hbetween : edge.Between x y) =>
      hbetween.not_passed ((h.before_crossing hs he).1 (not_lt.mp hge))
    rw [hnil.1] at ha
    exact not_uneven_nil mode ha
  · by_contra hle
    rw [h.filled_right hs (by omega)] at hb
    have hnil := inside_eq_nil fun edge he (hbetween : edge.Between x y) =>
      ((h.behind_crossing hs he).1 (not_lt.mp hle)).not_gt hbetween.2
    rw [hnil.2] at hb
    exact not_uneven_nil mode hb

/-- A flat edge has one polygon above it and the other below it. -/
theorem Adjacent.not_filled_of_flat (h : Adjacent a b s t) (hs : s.1.2 = s.2.2)
    (ha : Filled [a] mode x y) (hb : Filled [b] mode x y) : False := by
  have hoffset (p : Int × Int) : s.offset p.1 p.2 = (s.2.1 - s.1.1) * (p.2 - s.1.2) := by
    unfold Edge.offset Edge.direction side
    rw [if_neg (by omega), hs]
    ring
  have hends : s.1.1 ≠ s.2.1 := fun h1 => h.ends (Prod.ext h1 hs)
  have hbefore (p : Int × Int) (hp : p ∈ a) := (hoffset p).symm.trans_le (h.before p hp)
  have hbehind (p : Int × Int) (hp : p ∈ b) := (h.behind p hp).trans_eq (hoffset p)
  obtain ⟨⟨p1, hp1, hy1⟩, p2, hp2, hy2⟩ := ha.between
  obtain ⟨⟨q1, hq1, hz1⟩, q2, hq2, hz2⟩ := hb.between
  rw [List.flatten_singleton] at hp1 hp2 hq1 hq2
  rcases lt_or_gt_of_ne hends with hright | hleft
  · have hp : p2.2 - s.1.2 ≤ 0 := nonpos_of_mul_nonpos_right (hbefore p2 hp2) (by omega)
    have hq : 0 ≤ q1.2 - s.1.2 := nonneg_of_mul_nonneg_right (hbehind q1 hq1) (by omega)
    omega
  · have hp : 0 ≤ p1.2 - s.1.2 := by
      by_contra hneg
      exact (hbefore p1 hp1).not_gt (Int.mul_pos_of_neg_of_neg (by omega) (not_le.mp hneg))
    have hq : q2.2 - s.1.2 ≤ 0 := by
      by_contra hpos
      exact (hbehind q2 hq2).not_gt (Int.mul_neg_of_neg_of_pos (by omega) (not_le.mp hpos))
    omega

/-- The polygons draw the edge apart from each other in the pixels that it goes through. -/
theorem Adjacent.apart_iff (h : Adjacent a b s t) (hcross : s.Crosses y) :
    ¬ (s.crossingX y ≤ x ↔ t.crossingX y ≤ x) ↔ s.Between x y ∧ s ≠ t := by
  rcases h.same with rfl | rfl
  · exact iff_of_false (fun hne => hne Iff.rfl) fun hne => hne.2 rfl
  · have hswap : s ≠ s.swap := fun heq => h.ends (congrArg Prod.fst heq)
    rw [Edge.crossingX_le_iff hcross, Edge.crossingX_swap_le_iff hcross, and_iff_left hswap]
    by_cases hbetween : s.Between x y
    · have hsloped := hbetween.sloped
      simp only [hbetween, hbetween.not_passed, false_or, true_and, iff_true]
      omega
    · simp [hbetween]

theorem tiles_iff (h : Adjacent a b s t) (ha : InRange a) (hb : InRange b) (e : Allocator)
    (ra rb : RegionHeap) (mode : Int) :
    Tiles e ra rb a b s t mode ↔ Roomy a ∧ Roomy b ∧ MeetsAlong a b s t mode := by
  constructor
  · rintro ⟨left, right, hleft, hright, hdisjoint, hgap⟩
    obtain ⟨hroomy, rfl⟩ := (ha.hasPixels_iff e ra mode).mp hleft
    obtain ⟨hroomy', rfl⟩ := (hb.hasPixels_iff e rb mode).mp hright
    refine ⟨hroomy, hroomy', fun x y hbetween => ?_⟩
    have hs := hbetween.not_flat
    rw [← h.filled_left hs hbetween.2, ← h.filled_right hs hbetween.1]
    have hno : (x, y) ∉ { v : Int × Int | Filled [a] mode v.1 v.2 } ∩
        { v | Filled [b] mode v.1 v.2 } := fun hboth => hdisjoint.le_bot hboth
    exact ⟨hno,
      fun hcross hne => hgap x y hcross ((h.apart_iff hcross).mpr ⟨hbetween, hne⟩)⟩
  · rintro ⟨hroomy, hroomy', hmeets⟩
    refine ⟨_, _, (ha.hasPixels_iff e ra mode).mpr ⟨hroomy, rfl⟩,
      (hb.hasPixels_iff e rb mode).mpr ⟨hroomy', rfl⟩, Set.disjoint_left.mpr ?_,
      fun x y hcross happart => ?_⟩
    · rintro ⟨x, y⟩ hfa hfb
      by_cases hs : s.1.2 = s.2.2
      · exact h.not_filled_of_flat hs hfa hfb
      · have hbetween := h.between_of_filled hs hfa hfb
        exact (hmeets x y hbetween).1
          ⟨(h.filled_left hs hbetween.2).mp hfa, (h.filled_right hs hbetween.1).mp hfb⟩
    · obtain ⟨hbetween, hne⟩ := (h.apart_iff hcross).mp happart
      have hs := hbetween.not_flat
      exact ((hmeets x y hbetween).2 hcross hne).imp (h.filled_left hs hbetween.2).mpr
        (h.filled_right hs hbetween.1).mpr

end Adjacent

/-! ## All of them -/

/--
**Order of the points.** A polygon has the same region from any of its points on, if there is room.
The reversed polygon has it if edges to the left do for each pixel what those to the right do, and
two polygons fit along an edge if the edges inside of its pixels fill them from one side.
-/
theorem polygon_order_iff {a b : List (Int × Int)} (ha : InRange a) (hb : InRange b)
    (e : Allocator) (h h' : RegionHeap) (mode : Int) :
    (∀ k, SameRegion e h a (a.rotate k) mode ↔ Roomy a) ∧
      (SameRegion e h a a.reverse mode ↔ Roomy a ∧ RoundsAlike a mode) ∧
        ∀ s t, Adjacent a b s t →
          (Tiles e h h' a b s t mode ↔ Roomy a ∧ Roomy b ∧ MeetsAlong a b s t mode) :=
  ⟨sameRegion_rotate_iff ha e h mode, sameRegion_reverse_iff ha e h mode,
    fun _ _ hadj => tiles_iff hadj ha hb e h h' mode⟩

/-- Every block is as large as asked for. -/
def wholeBlocks : Allocator := ⟨id, fun _ => Nat.le_refl _, fun _ _ => 0⟩

def noRegions : RegionHeap := ⟨fun _ => none, 0, fun i => i⟩

/-- Triangles on both sides of an edge that goes straight down; each row moves the others by 1. -/
def leftCorner : List (Int × Int) := [(0, 0), (0, 4), (-4, 4)]

def rightCorner : List (Int × Int) := [(0, 4), (0, 0), (4, 4)]

theorem roomy_of_few {points : List (Int × Int)} (h : points.length ≤ 32768) : Roomy points := by
  refine ⟨⟨by omega, by omega⟩, fun y => (length_crossings [points] y).trans ?_⟩
  rwa [List.flatten_singleton]

theorem roundsAlike_of_not_between {points : List (Int × Int)} (mode : Int)
    (h : ∀ x y, ∀ edge ∈ edgesOf points, ¬ edge.Between x y) : RoundsAlike points mode := by
  intro x y
  have hno (edge : Edge) (he : edge ∈ crossings [points] y) : ¬ edge.Between x y := by
    obtain ⟨⟨points', hp, hedge⟩, -⟩ := mem_crossings.mp he
    obtain rfl := List.mem_singleton.mp hp
    exact h x y edge hedge
  obtain ⟨hleft, hright⟩ := inside_eq_nil hno
  rw [hright, hleft]
  split_ifs
  · exact Even.zero
  · exact Iff.rfl

theorem polygon_order_iff_corner :
    SameRegion wholeBlocks noRegions leftCorner (leftCorner.rotate 1) polygonAlternate ∧
      SameRegion wholeBlocks noRegions leftCorner leftCorner.reverse polygonAlternate ∧
        Tiles wholeBlocks noRegions noRegions leftCorner rightCorner ((0, 0), (0, 4))
          ((0, 4), (0, 0)) polygonAlternate := by
  have hroomy : Roomy leftCorner := roomy_of_few (by decide)
  obtain ⟨hrotate, hreverse, htiles⟩ := polygon_order_iff (a := leftCorner) (b := rightCorner)
    (by unfold InRange; decide) (by unfold InRange; decide) wholeBlocks noRegions noRegions
    polygonAlternate
  have hadj : Adjacent leftCorner rightCorner ((0, 0), (0, 4)) ((0, 4), (0, 0)) :=
    ⟨by decide, by decide, Or.inr rfl, by decide, by decide, by decide⟩
  have hedges : edgesOf leftCorner =
      [((0, 0), (0, 4)), ((0, 4), (-4, 4)), ((-4, 4), (0, 0))] := by decide
  have halike : RoundsAlike leftCorner polygonAlternate := by
    refine roundsAlike_of_not_between _ fun x y edge he hbetween => ?_
    have hsloped := hbetween.sloped
    have hflat := hbetween.not_flat
    rw [hedges] at he
    unfold Edge.Between Edge.offset side Edge.direction at hbetween
    rcases List.mem_cons.mp he with rfl | he
    · exact hsloped rfl
    rcases List.mem_cons.mp he with rfl | he
    · exact hflat rfl
    obtain rfl := List.mem_singleton.mp he
    dsimp only at hbetween
    rw [if_neg (by decide)] at hbetween
    omega
  exact ⟨(hrotate 1).mpr hroomy, hreverse.mpr ⟨hroomy, halike⟩, (htiles _ _ hadj).mpr
    ⟨hroomy, roomy_of_few (by decide), fun x y hbetween => absurd rfl hbetween.sloped⟩⟩

/-- Triangles on both sides of an edge that is a third of a pixel wide in each row. -/
def leftTriangle : List (Int × Int) := [(0, 0), (1, 3), (-4, 3)]

def rightTriangle : List (Int × Int) := [(0, 0), (9, 3), (1, 3)]

theorem not_order_independent_third :
    InRange leftTriangle ∧ InRange rightTriangle ∧
      Adjacent leftTriangle rightTriangle ((0, 0), (1, 3)) ((1, 3), (0, 0)) ∧
        ¬ SameRegion wholeBlocks noRegions leftTriangle leftTriangle.reverse polygonAlternate ∧
          ¬ Tiles wholeBlocks noRegions noRegions leftTriangle rightTriangle ((0, 0), (1, 3))
              ((1, 3), (0, 0)) polygonAlternate := by
  have hleft : InRange leftTriangle := by unfold InRange; decide
  have hright : InRange rightTriangle := by unfold InRange; decide
  have hadj : Adjacent leftTriangle rightTriangle ((0, 0), (1, 3)) ((1, 3), (0, 0)) :=
    ⟨by decide, by decide, Or.inr rfl, by decide, by decide, by decide⟩
  refine ⟨hleft, hright, hadj, fun hsame => ?_, fun htiles => ?_⟩
  · have halike := ((sameRegion_reverse_iff hleft _ _ _).mp hsame).2 0 1
    rw [if_pos rfl] at halike
    exact absurd halike (by decide)
  · have hmeets := ((tiles_iff hadj hleft hright _ _ _ _).mp htiles).2.2 0 1 (by decide)
    unfold Uneven at hmeets
    simp only [if_pos] at hmeets
    exact absurd (hmeets.2 (by decide) (by decide)) (by decide)

end Nolrem.Cd
