import Nolrem.Cd.RegionRoundTrip

/-!
# Going through a region with interruptions

`IterateRegionCoroutine` of `kernel/CLIPDRAW/region.c` as its callers use it that stop it: both
callbacks return `true`, so a call ends at the next band or at the next rectangle, and the next call
goes on from there. Whatever is asked for in between, the bands are those of one pass.
-/

namespace Nolrem.Cd

/-! ## The code -/

/--
`struct region_iteration_context`. `iter` has what is kept from band to band, and the pointer where
the band begins; `ptr` is the pointer within the band.
-/
structure Context where
  iter : Iter := createIterationContext
  i : Nat := 0
  startPtr : Nat := 0
  inRepeatMode : Bool := false
  header : BandHeader := ⟨0, 0, 0, 0, false, false⟩
  ptr : Nat := 0
  compactSpansTopByte : Nat := 0
  scaledY0 : Int := 0
  scaledY1 : Int := 0
  j : Nat := 0
  doneBandCallback : Bool := false
  done : Bool := false

/-- What `CdMapDCCoordinates` adds: `trans_x` and `trans_y` of `struct dc`. -/
structure ScaleDc where
  transX : BitVec 16
  transY : BitVec 16

/-- `CdMapDCCoordinates`, for `x`; without a DC nothing is mapped. -/
def mapX (dc : Option ScaleDc) (x : Int) : Int := x + (dc.map fun dc => dc.transX.toInt).getD 0

/-- `CdMapDCCoordinates`, for `y` -/
def mapY (dc : Option ScaleDc) (y : Int) : Int := y + (dc.map fun dc => dc.transY.toInt).getD 0

/-- The callback that stops a call and what it is given, or nothing when the region is through. -/
inductive Stop where
  | band (y0 y1 : Int)
  | rect (x0 x1 : Int)
  | ended
deriving DecidableEq, Repr

/-- A round of the loop over the spans of a band, with the top byte and the pointer behind it. -/
def readSpan (get : Nat → Nat) (b : BandHeader) (j top ptr : Nat) (it : Iter) :
    (Int × Int) × Nat × Nat × Iter :=
  let (x0, x1, top, ptr) :=
    if b.small then
      (toInt16 (it.prevX0 j + ((get ptr % 16 : Nat) - 8)),
        toInt16 (it.prevX1 j + ((get ptr / 16 % 16 : Nat) - 8)), top, ptr + 1)
    else if b.compactSpans then
      let (top, ptr) := if j = 0 then (get ptr, ptr + 1) else (top, ptr)
      (s16 (get ptr + 256 * top), s16 (get (ptr + 1) + 256 * top), top, ptr + 2)
    else (int16At get ptr, int16At get (ptr + 2), top, ptr + 4)
  let it :=
    if j < 16 then
      { it with prevX0 := Function.update it.prevX0 j x0, prevX1 := Function.update it.prevX1 j x1 }
    else it
  ((x0, x1), top, ptr, it)

namespace Context

variable (d : RegionData) (dc : Option ScaleDc) (c : Context)

/-- Where the bytes of the band are read. -/
def get : Nat → Nat := if c.inRepeatMode then c.iter.prevSmallMode else d.band

/-- The control byte and the rows of a band, up to the call of `band_callback`. -/
def enterBand : Context :=
  let start := c.iter.ptr
  let (inRepeat, it) := readControl d.band c.iter
  let get := if inRepeat then it.prevSmallMode else d.band
  let b := readHeader get (if inRepeat then 0 else start) it.prevY1
  { c with
    iter := it
    startPtr := start
    inRepeatMode := inRepeat
    header := b
    ptr := b.ptr
    compactSpansTopByte := 0
    scaledY0 := toInt16 (mapY dc b.y0)
    scaledY1 := toInt16 (mapY dc b.y1)
    doneBandCallback := true }

/-- The spans of a band that are left are read and nothing is called. -/
def skipSpans : Context :=
  let (_, ptr, it) :=
    readSpans (c.get d) c.header (c.header.numSpans - c.j) c.j c.compactSpansTopByte c.ptr c.iter
  { c with ptr, iter := it }

/-- What is done after the spans of a band. -/
def finishBand : Context :=
  let it := { c.iter with prevY1 := c.header.y1 }
  let it :=
    if c.header.small && !c.inRepeatMode then
      { it with
        prevSmallMode := fun i =>
          if i < c.ptr - c.startPtr then d.band (c.startPtr + i) else it.prevSmallMode i }
    else it
  { c with
    iter := leaveBand c.inRepeatMode c.startPtr c.ptr it
    j := 0
    i := c.i + 1
    doneBandCallback := false }

/-- The loop of `IterateRegionCoroutine`, with `fuel` rounds left; `rects` if there is a
`rect_callback`. -/
def loop (rects : Bool) : Nat → Context → Stop × Context
  | 0, c => (.ended, { c with done := true })
  | fuel + 1, c =>
    if !c.doneBandCallback then
      let c := c.enterBand d dc
      (.band (mapY dc c.header.y0 + d.transY.toInt) (mapY dc c.header.y1 + d.transY.toInt), c)
    else if rects && c.j < c.header.numSpans then
      let (s, top, ptr, it) := readSpan (c.get d) c.header c.j c.compactSpansTopByte c.ptr c.iter
      (.rect (mapX dc s.1 + d.transX.toInt) (mapX dc s.2 + d.transX.toInt),
        { c with iter := it, ptr, compactSpansTopByte := top, j := c.j + 1 })
    else loop rects fuel ((c.skipSpans d).finishBand d)

/-- `IterateRegionCoroutine`, with callbacks that return `true` -/
def resume (data : Option RegionData) (rects : Bool) : Stop × Context :=
  if c.done then (.ended, c)
  else
    match data with
    | none => (.ended, { c with done := true })
    | some d => loop d dc rects (d.numBands - c.i) c

end Context

/-! ## What is still to come -/

section Bands

variable {d : RegionData} {dc : Option ScaleDc} {c : Context}

theorem readSpans_succ (get : Nat → Nat) (b : BandHeader) (k j top ptr : Nat) (it : Iter) :
    readSpans get b (k + 1) j top ptr it =
      (((readSpan get b j top ptr it).1 ::
          (readSpans get b k (j + 1) (readSpan get b j top ptr it).2.1
            (readSpan get b j top ptr it).2.2.1 (readSpan get b j top ptr it).2.2.2).1),
        (readSpans get b k (j + 1) (readSpan get b j top ptr it).2.1
          (readSpan get b j top ptr it).2.2.1 (readSpan get b j top ptr it).2.2.2).2) := rfl

/-- The call stands before the bands `l`. -/
structure Before (d : RegionData) (c : Context) (l : List Band) : Prop where
  done : c.done = false
  doneBandCallback : c.doneBandCallback = false
  j : c.j = 0
  bands : bands d.band (d.numBands - c.i) c.iter = l

/-- The call stands in the band `b`, of which the spans `spans` are left, and before the bands `l`. -/
structure InBand (d : RegionData) (dc : Option ScaleDc) (c : Context) (b : Band)
    (spans : List (Int × Int)) (l : List Band) : Prop where
  done : c.done = false
  doneBandCallback : c.doneBandCallback = true
  i : c.i < d.numBands
  numSpans : c.header.numSpans = b.spans.length
  j : c.j + spans.length = b.spans.length
  y0 : c.scaledY0 = toInt16 (mapY dc b.y0)
  y1 : c.scaledY1 = toInt16 (mapY dc b.y1)
  spans : (readSpans (c.get d) c.header spans.length c.j c.compactSpansTopByte c.ptr c.iter).1 =
    spans
  bands : bands d.band (d.numBands - (c.i + 1)) ((c.skipSpans d).finishBand d).iter = l

theorem length_readSpans (get : Nat → Nat) (b : BandHeader) (k j top ptr : Nat) (it : Iter) :
    (readSpans get b k j top ptr it).1.length = k := by
  induction k generalizing j top ptr it with
  | zero => rfl
  | succ k ih => rw [readSpans_succ, List.length_cons, ih]

/-- The steps of a band are those of `nextBand`. -/
theorem nextBand_eq (dc : Option ScaleDc) (h : c.j = 0) :
    nextBand d.band c.iter =
      (⟨(c.enterBand d dc).header.y0, (c.enterBand d dc).header.y1,
          (readSpans ((c.enterBand d dc).get d) (c.enterBand d dc).header
            (c.enterBand d dc).header.numSpans 0 0 (c.enterBand d dc).ptr
            (c.enterBand d dc).iter).1⟩,
        (((c.enterBand d dc).skipSpans d).finishBand d).iter) := by
  obtain ⟨iter, i, startPtr, inRepeat, header, ptr, top, y0, y1, j, call, done⟩ := c
  obtain rfl : j = 0 := h
  rfl

/-- A band is entered. -/
theorem Before.enterBand {b : Band} {l : List Band} (h : Before d c (b :: l)) :
    InBand d dc (c.enterBand d dc) b b.spans l ∧ (c.enterBand d dc).header.y0 = b.y0 ∧
      (c.enterBand d dc).header.y1 = b.y1 := by
  obtain ⟨hdone, hcall, hj, hbands⟩ := h
  obtain ⟨n, hn⟩ : ∃ n, d.numBands - c.i = n + 1 := by
    refine Nat.exists_eq_succ_of_ne_zero fun h0 => ?_
    rw [h0] at hbands
    cases hbands
  rw [hn, Cd.bands, nextBand_eq dc hj] at hbands
  obtain ⟨rfl, hl⟩ := List.cons.inj hbands
  refine ⟨⟨hdone, rfl, ?_, ?_, ?_, rfl, rfl, ?_, ?_⟩, rfl, rfl⟩
  · show c.i < d.numBands
    omega
  · exact (length_readSpans _ _ _ _ _ _ _).symm
  · show c.j + _ = _
    rw [hj, Nat.zero_add]
  · show (readSpans _ _ (readSpans _ _ _ _ _ _ _).1.length c.j 0 _ _).1 = _
    rw [length_readSpans, hj]
  · show Cd.bands d.band (d.numBands - (c.i + 1)) _ = l
    rw [show d.numBands - (c.i + 1) = n by omega]
    exact hl

/-- The spans that are left are skipped. -/
theorem InBand.finishBand {b : Band} {spans : List (Int × Int)} {l : List Band}
    (h : InBand d dc c b spans l) : Before d ((c.skipSpans d).finishBand d) l :=
  ⟨h.done, rfl, rfl, h.bands⟩

theorem prevSmallMode_readSpan (get : Nat → Nat) (b : BandHeader) (j top ptr : Nat) (it : Iter) :
    (readSpan get b j top ptr it).2.2.2.prevSmallMode = it.prevSmallMode := by
  unfold readSpan
  dsimp only
  split_ifs <;> rfl

/-- `c` after one span. -/
def Context.afterSpan (d : RegionData) (c : Context) : Context :=
  { c with
    iter := (readSpan (c.get d) c.header c.j c.compactSpansTopByte c.ptr c.iter).2.2.2
    ptr := (readSpan (c.get d) c.header c.j c.compactSpansTopByte c.ptr c.iter).2.2.1
    compactSpansTopByte := (readSpan (c.get d) c.header c.j c.compactSpansTopByte c.ptr c.iter).2.1
    j := c.j + 1 }

theorem get_afterSpan : (c.afterSpan d).get d = c.get d := by
  unfold Context.get
  show (if c.inRepeatMode then (readSpan _ _ _ _ _ _).2.2.2.prevSmallMode else d.band) = _
  rw [prevSmallMode_readSpan]

/-- Skipping the spans that are left goes on after one that is read. -/
theorem finishBand_afterSpan (h : c.j < c.header.numSpans) :
    (((c.afterSpan d).skipSpans d).finishBand d).iter = ((c.skipSpans d).finishBand d).iter := by
  obtain ⟨k, hk⟩ := Nat.exists_eq_add_of_lt h
  have hskip : (c.afterSpan d).skipSpans d =
      { c.skipSpans d with
        j := c.j + 1, compactSpansTopByte := (c.afterSpan d).compactSpansTopByte } := by
    unfold Context.skipSpans
    rw [get_afterSpan, show c.header.numSpans - c.j = k + 1 by omega, readSpans_succ]
    show _ = _
    rw [show (c.afterSpan d).header.numSpans - (c.afterSpan d).j = k by
      show c.header.numSpans - (c.j + 1) = k
      omega]
    rfl
  rw [hskip]
  rfl

/-- A span is read. -/
theorem InBand.next {b : Band} {s : Int × Int} {spans : List (Int × Int)} {l : List Band}
    (h : InBand d dc c b (s :: spans) l) :
    (readSpan (c.get d) c.header c.j c.compactSpansTopByte c.ptr c.iter).1 = s ∧
      c.j < c.header.numSpans ∧ InBand d dc (c.afterSpan d) b spans l := by
  obtain ⟨hdone, hcall, hi, hnum, hj, hy0, hy1, hspans, hbands⟩ := h
  rw [List.length_cons] at hj hspans
  rw [readSpans_succ] at hspans
  obtain ⟨hs, hrest⟩ := List.cons.inj hspans
  have hlt : c.j < c.header.numSpans := by omega
  refine ⟨hs, hlt, hdone, hcall, hi, hnum, ?_, hy0, hy1, ?_, ?_⟩
  · show c.j + 1 + spans.length = _
    omega
  · rw [get_afterSpan]
    exact hrest
  · rw [finishBand_afterSpan hlt]
    exact hbands

/-! ## The calls -/

/-- Nothing is left. -/
theorem loop_before_nil {rects : Bool} (h : Before d c []) :
    c.loop d dc rects (d.numBands - c.i) = (.ended, { c with done := true }) := by
  cases hn : d.numBands - c.i with
  | zero => rfl
  | succ n =>
    have hbands := h.bands
    rw [hn] at hbands
    cases hbands

/-- A call stops at the next band. -/
theorem loop_before_cons {rects : Bool} {b : Band} {l : List Band} (h : Before d c (b :: l)) :
    c.loop d dc rects (d.numBands - c.i) =
      (.band (mapY dc b.y0 + d.transY.toInt) (mapY dc b.y1 + d.transY.toInt),
        c.enterBand d dc) := by
  obtain ⟨hw, hy0, hy1⟩ : InBand d dc (c.enterBand d dc) b b.spans l ∧
      (c.enterBand d dc).header.y0 = b.y0 ∧ (c.enterBand d dc).header.y1 = b.y1 := h.enterBand
  have hi : c.i < d.numBands := hw.i
  obtain ⟨k, hk⟩ := Nat.exists_eq_add_of_lt hi
  rw [show d.numBands - c.i = k + 1 by omega, Context.loop, h.doneBandCallback]
  simp only [Bool.not_false, if_true, hy0, hy1]

/-- A call stops at the next span, if there is a callback for it. -/
theorem loop_within_cons {b : Band} {s : Int × Int} {spans : List (Int × Int)} {l : List Band}
    (h : InBand d dc c b (s :: spans) l) :
    c.loop d dc true (d.numBands - c.i) =
      (.rect (mapX dc s.1 + d.transX.toInt) (mapX dc s.2 + d.transX.toInt), c.afterSpan d) := by
  obtain ⟨hs, hlt, -⟩ := h.next
  have hi := h.i
  obtain ⟨k, hk⟩ := Nat.exists_eq_add_of_lt hi
  rw [show d.numBands - c.i = k + 1 by omega, Context.loop,
    if_neg (by simp [h.doneBandCallback]), if_pos (by simpa using hlt), ← hs]
  rfl

/-- A call goes on behind the spans, or behind those that nothing is called for. -/
theorem loop_within_nil {rects : Bool} {b : Band} {spans : List (Int × Int)} {l : List Band}
    (h : InBand d dc c b spans l) (hrects : rects = true → spans = []) :
    c.loop d dc rects (d.numBands - c.i) =
      ((c.skipSpans d).finishBand d).loop d dc rects
        (d.numBands - ((c.skipSpans d).finishBand d).i) := by
  have hi := h.i
  have hj := h.j
  have hnum := h.numSpans
  obtain ⟨k, hk⟩ := Nat.exists_eq_add_of_lt hi
  have hcond : (rects && decide (c.j < c.header.numSpans)) = false := by
    cases rects with
    | false => rfl
    | true =>
      rw [hrects rfl, List.length_nil] at hj
      simpa using (by omega : c.header.numSpans ≤ c.j)
  have hnext : d.numBands - ((c.skipSpans d).finishBand d).i = k := by
    show d.numBands - (c.i + 1) = k
    omega
  rw [hnext, show d.numBands - c.i = k + 1 by omega, Context.loop, h.doneBandCallback, hcond]
  rfl

section Resume

variable {b : Band} {s : Int × Int} {spans : List (Int × Int)} {l : List Band} {rects : Bool}

theorem resume_eq_loop (h : c.done = false) :
    c.resume dc (some d) rects = c.loop d dc rects (d.numBands - c.i) := by
  rw [Context.resume, h, if_neg Bool.false_ne_true]

/-- A call in a band of which nothing is asked for any more: the next band is entered. -/
theorem resume_band (dc : Option ScaleDc) (rects : Bool) (h : Before d c (b :: l) ∨
      ∃ b' spans, InBand d dc c b' spans (b :: l) ∧ (rects = true → spans = [])) :
    ∃ c', c.resume dc (some d) rects =
        (.band (mapY dc b.y0 + d.transY.toInt) (mapY dc b.y1 + d.transY.toInt), c') ∧
      InBand d dc c' b b.spans l := by
  rcases h with h | ⟨b', spans, h, hspans⟩
  · refine ⟨c.enterBand d dc, ?_, h.enterBand.1⟩
    rw [resume_eq_loop h.done, loop_before_cons h]
  · refine ⟨_, ?_, h.finishBand.enterBand.1⟩
    rw [resume_eq_loop h.done, loop_within_nil h hspans, loop_before_cons h.finishBand]

/-- A call after which nothing is left. -/
theorem resume_ended (dc : Option ScaleDc) (rects : Bool) (h : Before d c [] ∨
      ∃ b' spans, InBand d dc c b' spans [] ∧ (rects = true → spans = [])) :
    ∃ c', c.resume dc (some d) rects = (.ended, c') ∧ c'.done = true ∧
      (c.doneBandCallback = true → c'.i ≠ 0) := by
  rcases h with h | ⟨b', spans, h, hspans⟩
  · refine ⟨{ c with done := true }, by rw [resume_eq_loop h.done, loop_before_nil h], rfl, ?_⟩
    rw [h.doneBandCallback]
    exact fun h => absurd h Bool.false_ne_true
  · refine ⟨{ (c.skipSpans d).finishBand d with done := true }, ?_, rfl, fun _ => Nat.succ_ne_zero _⟩
    rw [resume_eq_loop h.done, loop_within_nil h hspans, loop_before_nil h.finishBand]

/-- A call in a band of which a span is left. -/
theorem resume_rect (h : InBand d dc c b (s :: spans) l) :
    ∃ c', c.resume dc (some d) true =
        (.rect (mapX dc s.1 + d.transX.toInt) (mapX dc s.2 + d.transX.toInt), c') ∧
      InBand d dc c' b spans l :=
  ⟨c.afterSpan d, by rw [resume_eq_loop h.done, loop_within_cons h], h.next.2.2⟩

/-- `CreateIterationContext` -/
theorem before_start (d : RegionData) : Before d {} d.bands := ⟨rfl, rfl, rfl, rfl⟩

end Resume

end Bands

end Nolrem.Cd
