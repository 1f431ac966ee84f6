import Nolrem.Cd.RectRegion
import Nolrem.Lib.Extent

/-!
# Questions about a region

`CdIsPointInRegion` of `kernel/CLIPDRAW/fully_pageable/rgn_ops.c` and `CdGetRegionBounds` of
`kernel/CLIPDRAW/region.c`, which go through the rectangles of a region with `IterateRegion`. Each
rectangle comes to them in a `struct rect`, whose fields are `int16_t`.
-/

namespace Nolrem.Cd

/-! ## The code -/

/-- What `rect_callback` of `IterateRegionCoroutine` is called with. -/
structure Box where
  y0 : Int
  y1 : Int
  x0 : Int
  x1 : Int
deriving DecidableEq, Repr

/-- `struct rect` -/
structure Rect where
  x : Int
  y : Int
  w : Int
  h : Int
deriving DecidableEq, Repr

/-- The calls of `rect_callback`, with the translation. -/
def RegionData.boxes (d : RegionData) : List Box :=
  d.bands.flatMap fun b => b.spans.map fun s =>
    { y0 := b.y0 + d.transY.toInt
      y1 := b.y1 + d.transY.toInt
      x0 := s.1 + d.transX.toInt
      x1 := s.2 + d.transX.toInt }

/-- The loops of `IterateRegionCoroutine`. A callback says whether to stop. -/
def iterateBoxes {σ : Type} (rectCallback : Box → σ → Bool × σ) : List Box → σ → σ
  | [], s => s
  | b :: l, s =>
    let (cancel, s) := rectCallback b s
    if cancel then s else iterateBoxes rectCallback l s

/-- `IterateRegionCoroutine`, with no callback for the bands and no scaling. -/
def iterateRegionCoroutine {σ : Type} (h : RegionHeap) (rgn : Region)
    (rectCallback : Box → σ → Bool × σ) (s : σ) : σ :=
  if cdIsRegionBad rgn || cdIsRegionEmpty h rgn then s
  else
    match h.data rgn with
    | none => s
    | some d => iterateBoxes rectCallback d.boxes s

/-- The `struct rect` that `IterateRegionThunk` makes. -/
def Box.rect (b : Box) : Rect where
  x := toInt16 b.x0
  y := toInt16 b.y0
  w := toInt16 (b.x1 - b.x0)
  h := toInt16 (b.y1 - b.y0)

/-- `IterateRegionThunk`. The state is what the context points to, and `*retv`. -/
def iterateRegionThunk {α : Type} (rectCallback : Rect → α → Int → Int × α × Bool) (b : Box)
    (s : α × Int) : Bool × α × Int :=
  let (retv, context, cancel) := rectCallback b.rect s.1 s.2
  (cancel, context, retv)

/-- `IterateRegion` -/
def iterateRegion {α : Type} (h : RegionHeap) (rgn : Region)
    (rectCallback : Rect → α → Int → Int × α × Bool) (context : α) (initRv : Int) : α × Int :=
  iterateRegionCoroutine h rgn (iterateRegionThunk rectCallback) (context, initRv)

/-- `PointInRectCallback` -/
def pointInRectCallback (r : Rect) (target : Int × Int) (_rv : Int) : Int × (Int × Int) × Bool :=
  if target.1 ≥ r.x ∧ target.1 < r.x + r.w ∧ target.2 ≥ r.y ∧ target.2 < r.y + r.h then
    (1, target, true)
  else (0, target, false)

/-- `CdIsPointInRegion` -/
def cdIsPointInRegion (h : RegionHeap) (rgn : Region) (x y : Int) : Bool :=
  (iterateRegion h rgn pointInRectCallback (toInt16 x, toInt16 y) 0).2 ≠ 0

/-- `GetRegionBoundsCallback`, where `w` and `h` of the bounds are the other corner. -/
def getRegionBoundsCallback (r : Rect) (boundRect : Rect) (rv : Int) : Int × Rect × Bool :=
  let boundRect := if r.y < boundRect.y then { boundRect with y := r.y } else boundRect
  let boundRect := if r.x < boundRect.x then { boundRect with x := r.x } else boundRect
  let boundRect :=
    if r.x + r.w > boundRect.w then { boundRect with w := toInt16 (r.x + r.w) } else boundRect
  let boundRect :=
    if r.y + r.h > boundRect.h then { boundRect with h := toInt16 (r.y + r.h) } else boundRect
  (rv, boundRect, false)

/-- `CdGetRegionBounds` -/
def cdGetRegionBounds (h : RegionHeap) (rgn : Region) : Rect :=
  if cdIsRegionBad rgn || cdIsRegionEmpty h rgn then { x := 0, y := 0, w := 0, h := 0 }
  else
    let r : Rect := { x := 32767, y := 32767, w := -32768, h := -32768 }
    let (r, _) := iterateRegion h rgn getRegionBoundsCallback r 0
    { r with w := toInt16 (r.w - r.x), h := toInt16 (r.h - r.y) }

/-! ## What is asked of it -/

/-- The points of a rectangle. -/
def Rect.points (r : Rect) : Set (Int × Int) :=
  Set.Ico r.x (r.x + r.w) ×ˢ Set.Ico r.y (r.y + r.h)

/-- The smallest rectangle that has all the points of `s`, and four zeroes for no points. -/
def IsBounds (s : Set (Int × Int)) (r : Rect) : Prop :=
  (s = ∅ ∧ r = { x := 0, y := 0, w := 0, h := 0 }) ∨
    (s.Nonempty ∧ s ⊆ r.points ∧ ∀ r' : Rect, s ⊆ r'.points → r.points ⊆ r'.points)

/-- The point test is right about `p`. -/
def PointRight (h : RegionHeap) (rgn : Region) (p : Int × Int) : Prop :=
  cdIsPointInRegion h rgn p.1 p.2 = true ↔ p ∈ pixels h rgn

/-- The points of a box. -/
def Box.points (b : Box) : Set (Int × Int) := Set.Ico b.x0 b.x1 ×ˢ Set.Ico b.y0 b.y1

/-- A box that a `struct rect` can hold. -/
structure Box.Fits (b : Box) : Prop where
  corner : b.x0 ∈ int16s ∧ b.y0 ∈ int16s
  size : b.x1 - b.x0 ∈ int16s ∧ b.y1 - b.y0 ∈ int16s

/-- The box has `p` once its corner and its size are moved, by multiples of 65536, to an `int16_t`. -/
def Box.Astray (b : Box) (p : Int × Int) : Prop :=
  ∃ i j k l : Int, b.x0 + 65536 * i ∈ int16s ∧ b.y0 + 65536 * j ∈ int16s ∧
    b.x1 - b.x0 + 65536 * k ∈ int16s ∧ b.y1 - b.y0 + 65536 * l ∈ int16s ∧
      p ∈ Set.Ico (b.x0 + 65536 * i) (b.x1 + 65536 * (i + k)) ×ˢ
        Set.Ico (b.y0 + 65536 * j) (b.y1 + 65536 * (j + l))

/--
If a box has the point, then one that fits has it, or one that does not goes astray to it; and if
none has it, then none goes astray to it.
-/
def PointShown (h : RegionHeap) (rgn : Region) (p : Int × Int) : Prop :=
  ∀ d, h.data rgn = some d →
    ((∃ b ∈ d.boxes, p ∈ b.points) →
        (∃ b ∈ d.boxes, p ∈ b.points ∧ b.Fits) ∨ ∃ b ∈ d.boxes, ¬ b.Fits ∧ b.Astray p) ∧
      ((¬ ∃ b ∈ d.boxes, p ∈ b.points) → ∀ b ∈ d.boxes, ¬ b.Fits → ¬ b.Astray p)

/--
Along one axis: the boxes start at an `int16_t`, are no further apart than 32767, and end at an
`int16_t` or not behind the last of them.
-/
structure AxisShown (l : List (Int × Int)) : Prop where
  starts : ∀ p ∈ l, p.1 ∈ int16s
  spread : ∀ p ∈ l, ∀ q ∈ l, q.2 - p.1 ≤ 32767
  ends : ∀ p ∈ l, p.2 ≤ 32767 ∨ ∃ q ∈ l.getLast?, p.2 ≤ q.2

def Box.xs (b : Box) : Int × Int := (b.x0, b.x1)

def Box.ys (b : Box) : Int × Int := (b.y0, b.y1)

/-- The empty region, or one that has boxes, with both axes shown. -/
def BoundsShown (h : RegionHeap) (rgn : Region) : Prop :=
  Upright h rgn ∧ ∀ d, h.data rgn = some d → d.numBands ≠ 0 →
    d.boxes ≠ [] ∧ AxisShown (d.boxes.map Box.xs) ∧ AxisShown (d.boxes.map Box.ys)

/-! ## The coordinates are sixteen bits wide -/

theorem bitVec_mem (v : BitVec 16) : v.toInt ∈ int16s := by
  have hv : toInt16 v.toInt = v.toInt := by
    rw [toInt16, BitVec.ofInt_toInt]
  rw [← hv]
  exact toInt16_mem _

theorem s16_mem (n : Nat) : s16 n ∈ int16s := bitVec_mem _

theorem readSpans_mem (get : Nat → Nat) (hd : BandHeader) : ∀ k j top ptr it,
    ∀ s ∈ (readSpans get hd k j top ptr it).1, s.1 ∈ int16s ∧ s.2 ∈ int16s := by
  intro k
  induction k with
  | zero =>
    rintro j top ptr it s ⟨⟩
  | succ k ih =>
    intro j top ptr it s hs
    unfold readSpans at hs
    split_ifs at hs
    all_goals
      rcases List.mem_cons.mp hs with rfl | hs
      · simp only [int16At, toInt16_mem, s16_mem, and_self]
      · exact ih _ _ _ _ _ hs

/-- The rows of a band, and where its spans begin and end, are `int16_t`. -/
def Band.Narrow (b : Band) : Prop :=
  (b.y0 ∈ int16s ∧ b.y1 ∈ int16s) ∧ ∀ s ∈ b.spans, s.1 ∈ int16s ∧ s.2 ∈ int16s

theorem readHeader_mem (get : Nat → Nat) (ptr : Nat) {prevY1 : Int} (hy : prevY1 ∈ int16s) :
    (readHeader get ptr prevY1).y0 ∈ int16s ∧ (readHeader get ptr prevY1).y1 ∈ int16s := by
  unfold readHeader
  dsimp only
  split_ifs
  · exact ⟨s16_mem _, s16_mem _⟩
  · exact ⟨s16_mem _, toInt16_mem _⟩
  · exact ⟨hy, toInt16_mem _⟩

theorem prevY1_readControl (band : Nat → Nat) (it : Iter) :
    (readControl band it).2.prevY1 = it.prevY1 := by
  unfold readControl
  split_ifs <;> rfl

theorem prevY1_leaveBand (inRepeat : Bool) (start ptr : Nat) (it : Iter) :
    (leaveBand inRepeat start ptr it).prevY1 = it.prevY1 := by
  unfold leaveBand
  split_ifs <;> rfl

theorem nextBand_narrow (band : Nat → Nat) {it : Iter} (hy : it.prevY1 ∈ int16s) :
    (nextBand band it).1.Narrow ∧ (nextBand band it).2.prevY1 ∈ int16s := by
  rw [← prevY1_readControl band it] at hy
  unfold nextBand
  obtain ⟨hy0, hy1⟩ := readHeader_mem
    (if (readControl band it).1 then (readControl band it).2.prevSmallMode else band)
    (if (readControl band it).1 then 0 else it.ptr) hy
  refine ⟨⟨⟨hy0, hy1⟩, readSpans_mem _ _ _ _ _ _ _⟩, ?_⟩
  dsimp only
  rw [prevY1_leaveBand, apply_ite Iter.prevY1, ite_self]
  exact hy1

theorem bands_narrow (band : Nat → Nat) : ∀ n it, it.prevY1 ∈ int16s →
    ∀ b ∈ bands band n it, b.Narrow := by
  intro n
  induction n with
  | zero =>
    rintro it - b ⟨⟩
  | succ n ih =>
    intro it hy b hb
    obtain ⟨hnarrow, hnext⟩ := nextBand_narrow band hy
    rcases List.mem_cons.mp hb with rfl | hb
    · exact hnarrow
    · exact ih _ hnext b hb

/-- All of an axis of a region lies between `t - 32768` and `t + 32767`. -/
def AxisNarrow (t : Int) (l : List (Int × Int)) : Prop :=
  ∀ p ∈ l, (t - 32768 ≤ p.1 ∧ p.1 ≤ t + 32767) ∧ t - 32768 ≤ p.2 ∧ p.2 ≤ t + 32767

theorem RegionData.boxes_narrow (d : RegionData) : ∀ b ∈ d.boxes,
    ∃ e ∈ d.bands, ∃ s ∈ e.spans, e.Narrow ∧
      b = { y0 := e.y0 + d.transY.toInt, y1 := e.y1 + d.transY.toInt
            x0 := s.1 + d.transX.toInt, x1 := s.2 + d.transX.toInt } := by
  intro b hb
  obtain ⟨e, he, hb⟩ := List.mem_flatMap.mp hb
  obtain ⟨s, hs, rfl⟩ := List.mem_map.mp hb
  exact ⟨e, he, s, hs, bands_narrow _ _ _ ⟨by decide, by decide⟩ e he, rfl⟩

theorem RegionData.axisNarrow_xs (d : RegionData) :
    AxisNarrow d.transX.toInt (d.boxes.map Box.xs) := by
  intro p hp
  obtain ⟨b, hb, rfl⟩ := List.mem_map.mp hp
  obtain ⟨e, -, s, hs, hnarrow, rfl⟩ := d.boxes_narrow b hb
  obtain ⟨⟨h0, h1⟩, h2, h3⟩ := hnarrow.2 s hs
  simp only [Box.xs]
  omega

theorem RegionData.axisNarrow_ys (d : RegionData) :
    AxisNarrow d.transY.toInt (d.boxes.map Box.ys) := by
  intro p hp
  obtain ⟨b, hb, rfl⟩ := List.mem_map.mp hp
  obtain ⟨e, -, s, -, hnarrow, rfl⟩ := d.boxes_narrow b hb
  obtain ⟨⟨h0, h1⟩, h2, h3⟩ := hnarrow.1
  simp only [Box.ys]
  omega

/-! ## One axis of the bounds -/

/-- The lower bound of an axis after one more box. -/
def lowerBy (bound : Int) (p : Int × Int) : Int :=
  if toInt16 p.1 < bound then toInt16 p.1 else bound

/-- The upper bound of an axis after one more box. -/
def raiseBy (bound : Int) (p : Int × Int) : Int :=
  if toInt16 p.1 + toInt16 (p.2 - p.1) > bound then toInt16 (toInt16 p.1 + toInt16 (p.2 - p.1))
  else bound

theorem raiseBy_mem {bound : Int} (hb : bound ∈ int16s) (p : Int × Int) :
    raiseBy bound p ∈ int16s := by
  unfold raiseBy
  split_ifs
  · exact toInt16_mem _
  · exact hb

theorem foldl_raiseBy_mem (l : List (Int × Int)) {bound : Int} (hb : bound ∈ int16s) :
    l.foldl raiseBy bound ∈ int16s := by
  induction l generalizing bound with
  | nil => exact hb
  | cons p l ih => exact ih (raiseBy_mem hb p)

section Axis

variable {l : List (Int × Int)} {t m M : Int}

/-- The lower bound is one of the stored starts, and below all of them. -/
theorem foldl_lowerBy_spec (hl : l ≠ []) :
    (∀ p ∈ l, l.foldl lowerBy 32767 ≤ toInt16 p.1) ∧
      ∃ p ∈ l, l.foldl lowerBy 32767 = toInt16 p.1 := by
  obtain ⟨-, hall, heq⟩ := Lib.foldl_lower_spec (fun p : Int × Int => toInt16 p.1) l 32767
  refine ⟨hall, ?_⟩
  rcases heq with heq | hmem
  · obtain ⟨p, hp⟩ := List.exists_mem_of_ne_nil l hl
    refine ⟨p, hp, Int.le_antisymm (hall p hp) ?_⟩
    rw [show l.foldl lowerBy 32767 = 32767 from heq]
    exact (toInt16_mem p.1).2
  · exact hmem

/-- The upper bound is the greatest end, as long as no end is stored as another value. -/
theorem foldl_raiseBy_of_narrow (hl : Lib.IsExtent l m M)
    (hend : ∀ p ∈ l, toInt16 p.1 + toInt16 (p.2 - p.1) = p.2 ∧ p.2 ∈ int16s) :
    l.foldl raiseBy (-32768) = M := by
  have hstep : l.foldl raiseBy (-32768) =
      l.foldl (fun bound p => if p.2 > bound then p.2 else bound) (-32768) := by
    refine List.foldl_ext _ _ _ fun bound p hp => ?_
    obtain ⟨hsum, hlow, hhigh⟩ := hend p hp
    rw [raiseBy, hsum, toInt16_of_mem hlow hhigh]
  obtain ⟨-, hall, heq⟩ := Lib.foldl_higher_spec (fun p : Int × Int => p.2) l (-32768)
  obtain ⟨q, hq, hM⟩ := hl.finish
  rw [hstep]
  refine Int.le_antisymm ?_ (hM ▸ hall q hq)
  rcases heq with heq | ⟨p, hp, heq⟩
  · rw [heq, ← hM]
    exact (hend q hq).2.1
  · rw [heq]
    exact hl.finish_le p hp

/-- The width that is stored depends on the bounds up to multiples of 65536 only. -/
theorem toInt16_width {high : Int} :
    toInt16 (high - m) = M - m ↔ (∃ k, high = M + 65536 * k) ∧ M - m ∈ int16s := by
  obtain ⟨k, hk, hlow, hhigh⟩ := toInt16_spec (high - m)
  constructor
  · intro heq
    exact ⟨⟨-k, by omega⟩, by omega, by omega⟩
  · rintro ⟨⟨j, hj⟩, h1, h2⟩
    omega

/-- What the last box does to an upper bound that the boxes before it left. -/
theorem exists_raiseBy_last (front : List (Int × Int)) {q : Int × Int}
    (hsum : toInt16 q.1 + toInt16 (q.2 - q.1) = q.2) :
    ∃ bound ∈ int16s, (front ++ [q]).foldl raiseBy (-32768) =
      if q.2 > bound then toInt16 q.2 else bound := by
  refine ⟨_, foldl_raiseBy_mem front ⟨Int.le_refl (-32768), by decide⟩, ?_⟩
  rw [List.foldl_append, List.foldl_cons, List.foldl_nil, raiseBy, hsum]

variable (hn : AxisNarrow t l) (ht : t ∈ int16s) (he : Lib.IsExtent l m M)
  (hup : ∀ p ∈ l, p.1 < p.2)

include hn ht he

/-- A bound that is right has seen all starts as they are. -/
theorem starts_of_lower (hlow : l.foldl lowerBy 32767 = m) : ∀ p ∈ l, p.1 ∈ int16s := by
  intro p hp
  obtain ⟨s, hs, hms⟩ := he.start
  obtain ⟨hall, u, -, hu⟩ := foldl_lowerBy_spec (List.ne_nil_of_mem hs)
  obtain ⟨ht0, ht1⟩ := ht
  have hsn := hn s hs
  have hpn := hn p hp
  have hmp := he.le_start p hp
  have hlp := hall p hp
  obtain ⟨-, -, hu0, hu1⟩ := toInt16_spec u.1
  obtain ⟨k, hk, hk0, hk1⟩ := toInt16_spec p.1
  exact ⟨by omega, by omega⟩

include hup

/-- An end that no `int16_t` holds is stored right only if no box comes after it. -/
theorem ends_of_upper (hlow : l.foldl lowerBy 32767 = m)
    (hwidth : toInt16 (l.foldl raiseBy (-32768) - m) = M - m) :
    ∀ p ∈ l, p.2 ≤ 32767 ∨ ∃ q ∈ l.getLast?, p.2 ≤ q.2 := by
  intro p hp
  have hstarts := starts_of_lower hn ht he hlow
  obtain ⟨⟨k, hk⟩, hM0, hM1⟩ := toInt16_width.mp hwidth
  obtain ⟨e, hfin, hMe⟩ := he.finish
  have hen := hn e hfin
  have hpM := he.finish_le p hp
  obtain ⟨ht0, ht1⟩ := ht
  rcases List.eq_nil_or_concat l with rfl | ⟨front, q, rfl⟩
  · cases hp
  rw [List.concat_eq_append] at *
  have hq : q ∈ front ++ [q] := List.mem_append_right _ (List.mem_singleton_self q)
  obtain ⟨hq0, hq1⟩ := hstarts q hq
  have hqn := hn q hq
  have hqM := he.finish_le q hq
  have hqm := he.le_start q hq
  have hqup := hup q hq
  by_cases hbig : p.2 ≤ 32767
  · exact Or.inl hbig
  refine Or.inr ⟨q, List.getLast?_concat, ?_⟩
  have hsum : toInt16 q.1 + toInt16 (q.2 - q.1) = q.2 := by
    rw [toInt16_of_mem hq0 hq1, toInt16_of_mem (by omega) (by omega)]
    omega
  obtain ⟨bound, ⟨hb0, hb1⟩, hlast⟩ := exists_raiseBy_last front hsum
  rw [hlast] at hk
  split_ifs at hk with hraise
  · -- the last box gives the upper bound
    obtain ⟨j, hj, -, -⟩ := toInt16_spec q.2
    omega
  · -- it does not: then the bound is above its start, and negative
    omega

theorem axisShown_iff :
    (l.foldl lowerBy 32767 = m ∧
        toInt16 (l.foldl raiseBy (-32768) - l.foldl lowerBy 32767) = M - m) ↔ AxisShown l := by
  obtain ⟨s, hs, hms⟩ := he.start
  obtain ⟨e, hfin, hMe⟩ := he.finish
  constructor
  · rintro ⟨hlow, hwidth⟩
    rw [hlow] at hwidth
    refine ⟨starts_of_lower hn ht he hlow, fun p hp q hq => ?_,
      ends_of_upper hn ht he hup hlow hwidth⟩
    have hw := (toInt16_width.mp hwidth).2.2
    have hpm := he.le_start p hp
    have hqM := he.finish_le q hq
    omega
  · rintro ⟨hstarts, hspread, hends⟩
    have hwide := hspread s hs e hfin
    have hsM := he.finish_le s hs
    have hsup := hup s hs
    have hself : ∀ p ∈ l, toInt16 p.1 = p.1 := fun p hp =>
      toInt16_of_mem (hstarts p hp).1 (hstarts p hp).2
    have hsum : ∀ p ∈ l, toInt16 p.1 + toInt16 (p.2 - p.1) = p.2 := by
      intro p hp
      have := hup p hp
      rw [hself p hp, toInt16_of_mem (by omega) (hspread p hp p hp)]
      omega
    have hlow : l.foldl lowerBy 32767 = m := by
      obtain ⟨hall, u, hu, heq⟩ := foldl_lowerBy_spec (List.ne_nil_of_mem hs)
      have hle := hall s hs
      have hge := he.le_start u hu
      rw [hself s hs] at hle
      rw [hself u hu] at heq
      omega
    rw [hlow]
    refine ⟨rfl, toInt16_width.mpr ⟨?_, by omega, by omega⟩⟩
    by_cases hsmall : ∀ p ∈ l, p.2 ≤ 32767
    · refine ⟨0, ?_⟩
      rw [foldl_raiseBy_of_narrow he fun p hp => ⟨hsum p hp, ?_, hsmall p hp⟩]
      · omega
      · have := hup p hp
        have := (hstarts p hp).1
        omega
    · -- the end of the last box is the greatest, and above all that an `int16_t` holds
      push Not at hsmall
      obtain ⟨p, hp, hbig⟩ := hsmall
      rcases List.eq_nil_or_concat l with rfl | ⟨front, q, rfl⟩
      · cases hp
      rw [List.concat_eq_append] at *
      have hlast : ∀ r ∈ front ++ [q], r.2 ≤ 32767 ∨ r.2 ≤ q.2 := by
        intro r hr
        rcases hends r hr with hle | ⟨q', hq', hle⟩
        · exact Or.inl hle
        · rw [List.getLast?_concat] at hq'
          cases hq'
          exact Or.inr hle
      have hq : q ∈ front ++ [q] := List.mem_append_right _ (List.mem_singleton_self q)
      have hqM := he.finish_le q hq
      have hpq := hlast p hp
      have heq := hlast e hfin
      obtain ⟨bound, ⟨hb0, hb1⟩, hbound⟩ := exists_raiseBy_last front (hsum q hq)
      rw [hbound, if_pos (by omega)]
      obtain ⟨j, hj, -, -⟩ := toInt16_spec q.2
      exact ⟨j, by omega⟩

end Axis

/-! ## The bounds -/

variable {h : RegionHeap} {rgn : Region} {d : RegionData}

theorem not_bad_of_data (hd : h.data rgn = some d) : cdIsRegionBad rgn = false := by
  cases hp : rgn.data with
  | none =>
    rw [RegionHeap.data, hp] at hd
    cases hd
  | some p =>
    rw [cdIsRegionBad, hp]
    rfl

theorem not_empty_of_bands (hd : h.data rgn = some d) (hbands : d.numBands ≠ 0) :
    cdIsRegionEmpty h rgn = false := by
  rw [cdIsRegionEmpty, hd]
  exact beq_false_of_ne hbands

/-- Nothing is iterated of a region without data or without bands. -/
theorem cdIsRegionEmpty_of
    (hd : h.data rgn = none ∨ ∃ d, h.data rgn = some d ∧ d.numBands = 0) :
    cdIsRegionEmpty h rgn = true := by
  rcases hd with hd | ⟨d, hd, hbands⟩
  · rw [cdIsRegionEmpty, hd]
  · rw [cdIsRegionEmpty, hd]
    exact beq_iff_eq.mpr hbands

theorem iterateRegion_of_empty {α : Type} {rectCallback : Rect → α → Int → Int × α × Bool}
    {context : α} {rv : Int} (hempty : cdIsRegionEmpty h rgn = true) :
    iterateRegion h rgn rectCallback context rv = (context, rv) := by
  rw [iterateRegion, iterateRegionCoroutine, hempty, Bool.or_true, if_pos rfl]

/-- What `IterateRegion` does with a region that has bands. -/
theorem iterateRegion_eq {α : Type} {rectCallback : Rect → α → Int → Int × α × Bool}
    {context : α} {rv : Int} (hd : h.data rgn = some d) (hbands : d.numBands ≠ 0) :
    iterateRegion h rgn rectCallback context rv =
      iterateBoxes (iterateRegionThunk rectCallback) d.boxes (context, rv) := by
  rw [iterateRegion, iterateRegionCoroutine, not_bad_of_data hd, not_empty_of_bands hd hbands, hd]
  rfl

theorem boxes_of_numBands (hbands : d.numBands = 0) : d.boxes = [] := by
  rw [RegionData.boxes, RegionData.bands, hbands]
  rfl

theorem pixels_eq_rectUnion (hd : h.data rgn = some d) :
    pixels h rgn = Lib.rectUnion d.boxes Box.xs Box.ys := by
  ext p
  constructor
  · rintro ⟨d', hd', b, hb, hy0, hy1, s, hs, hx0, hx1⟩
    obtain rfl := Option.some.inj (hd.symm.trans hd')
    refine ⟨_, List.mem_flatMap.mpr ⟨b, hb, List.mem_map.mpr ⟨s, hs, rfl⟩⟩, ?_⟩
    simp only [Box.xs, Box.ys, Set.mem_prod, Set.mem_Ico]
    omega
  · rintro ⟨b, hb, ⟨hx0, hx1⟩, hy0, hy1⟩
    obtain ⟨e, he, hb⟩ := List.mem_flatMap.mp hb
    obtain ⟨s, hs, rfl⟩ := List.mem_map.mp hb
    simp only [Box.xs, Box.ys] at hx0 hx1 hy0 hy1
    exact ⟨d, hd, e, he, by omega, by omega, s, hs, by omega, by omega⟩

theorem pixels_of_no_data (hd : h.data rgn = none) : pixels h rgn = ∅ := by
  refine Set.eq_empty_of_forall_notMem fun p ⟨d, hd', _⟩ => ?_
  rw [hd] at hd'
  cases hd'

/-- Each field of the bounds goes its own way. -/
theorem getRegionBoundsCallback_eq (b : Box) (r : Rect) (rv : Int) :
    getRegionBoundsCallback b.rect r rv =
      (rv, { x := lowerBy r.x b.xs, y := lowerBy r.y b.ys
             w := raiseBy r.w b.xs, h := raiseBy r.h b.ys }, false) := by
  unfold getRegionBoundsCallback lowerBy raiseBy Box.rect Box.xs Box.ys
  dsimp only
  split_ifs <;> rfl

theorem iterateBoxes_bounds (l : List Box) (r : Rect) (rv : Int) :
    iterateBoxes (iterateRegionThunk getRegionBoundsCallback) l (r, rv) =
      ({ x := (l.map Box.xs).foldl lowerBy r.x, y := (l.map Box.ys).foldl lowerBy r.y
         w := (l.map Box.xs).foldl raiseBy r.w, h := (l.map Box.ys).foldl raiseBy r.h }, rv) := by
  induction l generalizing r with
  | nil => rfl
  | cons b l ih =>
    rw [iterateBoxes, iterateRegionThunk, getRegionBoundsCallback_eq]
    exact ih _

theorem cdGetRegionBounds_of_empty
    (hd : h.data rgn = none ∨ ∃ d, h.data rgn = some d ∧ d.numBands = 0) :
    cdGetRegionBounds h rgn = { x := 0, y := 0, w := 0, h := 0 } := by
  rw [cdGetRegionBounds, cdIsRegionEmpty_of hd, Bool.or_true, if_pos rfl]

/-- The bounds of a region that has bands. -/
theorem cdGetRegionBounds_eq (hd : h.data rgn = some d) (hbands : d.numBands ≠ 0) :
    cdGetRegionBounds h rgn =
      { x := (d.boxes.map Box.xs).foldl lowerBy 32767
        y := (d.boxes.map Box.ys).foldl lowerBy 32767
        w := toInt16 ((d.boxes.map Box.xs).foldl raiseBy (-32768) -
          (d.boxes.map Box.xs).foldl lowerBy 32767)
        h := toInt16 ((d.boxes.map Box.ys).foldl raiseBy (-32768) -
          (d.boxes.map Box.ys).foldl lowerBy 32767) } := by
  rw [cdGetRegionBounds, not_bad_of_data hd, not_empty_of_bands hd hbands, if_neg (by decide)]
  simp only [iterateRegion_eq hd hbands, iterateBoxes_bounds]

/-- The rectangles are those between any two corners. -/
theorem smallest_iff {s : Set (Int × Int)} {r : Rect} :
    (s ⊆ r.points ∧ ∀ r' : Rect, s ⊆ r'.points → r.points ⊆ r'.points) ↔
      s ⊆ r.points ∧ ∀ a b c d, s ⊆ Set.Ico a b ×ˢ Set.Ico c d →
        r.points ⊆ Set.Ico a b ×ˢ Set.Ico c d := by
  refine and_congr_right fun _ => ⟨fun hall a b c d hs => ?_, fun hall r' hs => hall _ _ _ _ hs⟩
  have hr := hall { x := a, y := c, w := b - a, h := d - c }
  simp only [Rect.points] at hr hs ⊢
  rw [show a + (b - a) = b by omega, show c + (d - c) = d by omega] at hr
  exact hr hs

theorem Upright.boxes (hup : Upright h rgn) (hd : h.data rgn = some d) :
    ∀ b ∈ d.boxes, b.x0 < b.x1 ∧ b.y0 < b.y1 := by
  intro b hb
  obtain ⟨e, he, hb⟩ := List.mem_flatMap.mp hb
  obtain ⟨s, hs, rfl⟩ := List.mem_map.mp hb
  obtain ⟨hrows, hspans⟩ := hup d hd e he
  exact ⟨Int.add_lt_add_right (hspans s hs) _, Int.add_lt_add_right hrows _⟩

theorem isBounds_iff (hd : h.data rgn = some d) (hbands : d.numBands ≠ 0) (hup : Upright h rgn) :
    IsBounds (pixels h rgn) (cdGetRegionBounds h rgn) ↔
      d.boxes ≠ [] ∧ AxisShown (d.boxes.map Box.xs) ∧ AxisShown (d.boxes.map Box.ys) := by
  rw [cdGetRegionBounds_eq hd hbands, pixels_eq_rectUnion hd]
  by_cases hnil : d.boxes = []
  · rw [hnil]
    refine iff_of_false ?_ fun hboxes => hboxes.1 rfl
    rintro (⟨-, hzero⟩ | ⟨⟨p, b, hb, -⟩, -⟩)
    · exact absurd (congrArg Rect.x hzero) (by decide)
    · cases hb
  · have hboxes := hup.boxes hd
    have hxs : d.boxes.map Box.xs ≠ [] := mt List.map_eq_nil_iff.mp hnil
    have hys : d.boxes.map Box.ys ≠ [] := mt List.map_eq_nil_iff.mp hnil
    obtain ⟨m, M, hx⟩ := Lib.exists_isExtent hxs
    obtain ⟨n, N, hy⟩ := Lib.exists_isExtent hys
    have hxup : ∀ p ∈ d.boxes.map Box.xs, p.1 < p.2 := by
      intro p hp
      obtain ⟨b, hb, rfl⟩ := List.mem_map.mp hp
      exact (hboxes b hb).1
    have hyup : ∀ p ∈ d.boxes.map Box.ys, p.1 < p.2 := by
      intro p hp
      obtain ⟨b, hb, rfl⟩ := List.mem_map.mp hp
      exact (hboxes b hb).2
    obtain ⟨b, hb⟩ := List.exists_mem_of_ne_nil _ hnil
    obtain ⟨hbx, hby⟩ := hboxes b hb
    have hne : (Lib.rectUnion d.boxes Box.xs Box.ys).Nonempty :=
      ⟨(b.x0, b.y0), b, hb, ⟨Int.le_refl _, hbx⟩, Int.le_refl _, hby⟩
    rw [← axisShown_iff d.axisNarrow_xs (bitVec_mem _) hx hxup,
      ← axisShown_iff d.axisNarrow_ys (bitVec_mem _) hy hyup, IsBounds, smallest_iff,
      or_iff_right fun hempty => hne.ne_empty hempty.1, and_iff_right hne]
    refine (Lib.rectUnion_smallest_iff hx hy hboxes hnil).trans ?_
    dsimp only
    constructor
    · rintro ⟨⟨hx0, hx1⟩, hy0, hy1⟩
      exact ⟨hnil, ⟨hx0, by omega⟩, hy0, by omega⟩
    · rintro ⟨-, ⟨hx0, hx1⟩, hy0, hy1⟩
      exact ⟨⟨hx0, by omega⟩, hy0, by omega⟩

/-! ## The point -/

/-- The loop stops at the first `struct rect` that has the target. -/
theorem iterateBoxes_point (l : List Box) (target : Int × Int) :
    (iterateBoxes (iterateRegionThunk pointInRectCallback) l (target, 0)).2 ≠ 0 ↔
      ∃ b ∈ l, target ∈ b.rect.points := by
  induction l with
  | nil => simp [iterateBoxes]
  | cons b l ih =>
    rw [iterateBoxes, iterateRegionThunk, pointInRectCallback, List.exists_mem_cons_iff, ← ih]
    by_cases hin : target ∈ b.rect.points
    · obtain ⟨⟨h1, h2⟩, h3, h4⟩ := hin
      rw [if_pos ⟨h1, h2, h3, h4⟩]
      exact iff_of_true Int.one_ne_zero (Or.inl ⟨⟨h1, h2⟩, h3, h4⟩)
    · rw [if_neg fun hc => hin ⟨⟨hc.1, hc.2.1⟩, hc.2.2⟩, or_iff_right hin]
      exact Iff.rfl

theorem cdIsPointInRegion_iff {p : Int × Int} (hp : p ∈ int16s ×ˢ int16s)
    (hd : h.data rgn = some d) :
    cdIsPointInRegion h rgn p.1 p.2 = true ↔ ∃ b ∈ d.boxes, p ∈ b.rect.points := by
  obtain ⟨⟨hx0, hx1⟩, hy0, hy1⟩ := hp
  rw [cdIsPointInRegion, toInt16_of_mem hx0 hx1, toInt16_of_mem hy0 hy1, decide_eq_true_iff]
  by_cases hbands : d.numBands = 0
  · rw [iterateRegion_of_empty (cdIsRegionEmpty_of (Or.inr ⟨d, hd, hbands⟩)),
      boxes_of_numBands hbands]
    simp
  · rw [iterateRegion_eq hd hbands]
    exact iterateBoxes_point d.boxes p

theorem Box.Fits.points {b : Box} (hb : b.Fits) : b.rect.points = b.points := by
  obtain ⟨⟨⟨h1, h2⟩, h3, h4⟩, ⟨h5, h6⟩, h7, h8⟩ := hb
  rw [Rect.points, Box.rect, toInt16_of_mem h1 h2, toInt16_of_mem h3 h4, toInt16_of_mem h5 h6,
    toInt16_of_mem h7 h8, Box.points]
  dsimp only
  rw [show b.x0 + (b.x1 - b.x0) = b.x1 by omega, show b.y0 + (b.y1 - b.y0) = b.y1 by omega]

/-- There is one way to go astray: that of the `struct rect`. -/
theorem astray_iff {b : Box} {p : Int × Int} : b.Astray p ↔ p ∈ b.rect.points := by
  obtain ⟨i, hi, hi0, hi1⟩ := toInt16_spec b.x0
  obtain ⟨j, hj, hj0, hj1⟩ := toInt16_spec b.y0
  obtain ⟨k, hk, hk0, hk1⟩ := toInt16_spec (b.x1 - b.x0)
  obtain ⟨l, hl, hl0, hl1⟩ := toInt16_spec (b.y1 - b.y0)
  simp only [Rect.points, Box.rect, Set.mem_prod, Set.mem_Ico]
  constructor
  · rintro ⟨i', j', k', l', ⟨h1, h2⟩, ⟨h3, h4⟩, ⟨h5, h6⟩, ⟨h7, h8⟩, ⟨h9, h10⟩, h11, h12⟩
    omega
  · rintro ⟨⟨h1, h2⟩, h3, h4⟩
    refine ⟨i, j, k, l, ⟨?_, ?_⟩, ⟨?_, ?_⟩, ⟨?_, ?_⟩, ⟨?_, ?_⟩, ⟨?_, ?_⟩, ?_, ?_⟩ <;> omega

theorem mem_pixels_iff (hd : h.data rgn = some d) {p : Int × Int} :
    p ∈ pixels h rgn ↔ ∃ b ∈ d.boxes, p ∈ b.points := by
  rw [pixels_eq_rectUnion hd]
  exact Iff.rfl

theorem pointRight_of_no_data (hd : h.data rgn = none) (p : Int × Int) : PointRight h rgn p := by
  rw [PointRight, pixels_of_no_data hd, cdIsPointInRegion,
    iterateRegion_of_empty (cdIsRegionEmpty_of (Or.inl hd))]
  exact iff_of_false Bool.false_ne_true fun hp => hp

theorem pointRight_iff {p : Int × Int} (hp : p ∈ int16s ×ˢ int16s) :
    PointRight h rgn p ↔ PointShown h rgn p := by
  cases hd : h.data rgn with
  | none =>
    refine iff_of_true (pointRight_of_no_data hd p) fun d hd' => ?_
    rw [hd] at hd'
    cases hd'
  | some d =>
    have hshown : (∃ b ∈ d.boxes, p ∈ b.rect.points) ↔
        (∃ b ∈ d.boxes, p ∈ b.points ∧ b.Fits) ∨ ∃ b ∈ d.boxes, ¬ b.Fits ∧ b.Astray p := by
      constructor
      · rintro ⟨b, hb, hin⟩
        by_cases hfits : b.Fits
        · rw [hfits.points] at hin
          exact Or.inl ⟨b, hb, hin, hfits⟩
        · exact Or.inr ⟨b, hb, hfits, astray_iff.mpr hin⟩
      · rintro (⟨b, hb, hin, hfits⟩ | ⟨b, hb, -, hastray⟩)
        · exact ⟨b, hb, hfits.points ▸ hin⟩
        · exact ⟨b, hb, astray_iff.mp hastray⟩
    rw [PointRight, cdIsPointInRegion_iff hp hd, mem_pixels_iff hd, hshown]
    constructor
    · intro hiff d' hd'
      obtain rfl := Option.some.inj (hd.symm.trans hd')
      exact ⟨hiff.mpr, fun hnone b hb hfits hastray =>
        hnone (hiff.mp (Or.inr ⟨b, hb, hfits, hastray⟩))⟩
    · intro hall
      obtain ⟨hin, hout⟩ := hall d hd
      refine ⟨?_, hin⟩
      rintro (⟨b, hb, hpb, -⟩ | ⟨b, hb, hfits, hastray⟩)
      · exact ⟨b, hb, hpb⟩
      · by_contra hnone
        exact hout hnone b hb hfits hastray

/-- The bounds are right where both axes are shown, and in an upright region nowhere else. -/
theorem isBounds_iff_boundsShown (hup : Upright h rgn) :
    IsBounds (pixels h rgn) (cdGetRegionBounds h rgn) ↔ BoundsShown h rgn := by
  rw [BoundsShown, and_iff_right hup]
  cases hd : h.data rgn with
  | none =>
    rw [cdGetRegionBounds_of_empty (Or.inl hd), pixels_of_no_data hd]
    exact iff_of_true (Or.inl ⟨rfl, rfl⟩) (by rintro d ⟨⟩)
  | some d =>
    by_cases hbands : d.numBands = 0
    · rw [cdGetRegionBounds_of_empty (Or.inr ⟨d, hd, hbands⟩)]
      refine iff_of_true (Or.inl ⟨?_, rfl⟩) fun d' hd' hne => ?_
      · refine Set.eq_empty_of_forall_notMem fun p hp => ?_
        obtain ⟨b, hb, -⟩ := (mem_pixels_iff hd).mp hp
        rw [boxes_of_numBands hbands] at hb
        cases hb
      · obtain rfl := Option.some.inj hd'
        exact absurd hbands hne
    · rw [isBounds_iff hd hbands hup]
      constructor
      · intro hshown d' hd' _
        obtain rfl := Option.some.inj hd'
        exact hshown
      · intro hall
        exact hall d rfl hbands

/--
`CdIsPointInRegion` is right about a point if and only if the boxes show it; `CdGetRegionBounds`
gives the smallest rectangle around the pixels where both axes are shown, and for an upright region
only there.
-/
theorem region_query_iff (h : RegionHeap) (rgn : Region) :
    (∀ p ∈ int16s ×ˢ int16s, PointRight h rgn p ↔ PointShown h rgn p) ∧
      (BoundsShown h rgn → IsBounds (pixels h rgn) (cdGetRegionBounds h rgn)) ∧
        (Upright h rgn →
          (IsBounds (pixels h rgn) (cdGetRegionBounds h rgn) ↔ BoundsShown h rgn)) :=
  ⟨fun _ hp => pointRight_iff hp, fun hshown => (isBounds_iff_boundsShown hshown.1).mpr hshown,
    isBounds_iff_boundsShown⟩

/--
The region of all points: its one box is 65535 wide, which is stored as -1. No point is found in it,
and the bounds are empty.
-/
theorem region_query_everything :
    ¬ PointRight (cdEverythingRegion noBlocks).1 (cdEverythingRegion noBlocks).2 (0, 0) ∧
      ¬ IsBounds (pixels (cdEverythingRegion noBlocks).1 (cdEverythingRegion noBlocks).2)
        (cdGetRegionBounds (cdEverythingRegion noBlocks).1 (cdEverythingRegion noBlocks).2) := by
  have hin : ((0, 0) : Int × Int) ∈
      pixels (cdEverythingRegion noBlocks).1 (cdEverythingRegion noBlocks).2 := by
    rw [pixels_cdEverythingRegion]
    exact ⟨⟨by decide, by decide⟩, by decide, by decide⟩
  have hpoint : cdIsPointInRegion (cdEverythingRegion noBlocks).1
      (cdEverythingRegion noBlocks).2 0 0 = false := by decide +kernel
  have hbounds : cdGetRegionBounds (cdEverythingRegion noBlocks).1
      (cdEverythingRegion noBlocks).2 = { x := -32768, y := -32768, w := 0, h := 0 } := by
    decide +kernel
  refine ⟨fun hright => ?_, ?_⟩
  · exact Bool.false_ne_true (hpoint.symm.trans (hright.mpr hin))
  · rw [hbounds]
    rintro (⟨hempty, -⟩ | ⟨-, hsub, -⟩)
    · rw [hempty] at hin
      exact hin
    · obtain ⟨⟨h0, h1⟩, -⟩ := hsub hin
      exact absurd h1 (by decide)

end Nolrem.Cd
