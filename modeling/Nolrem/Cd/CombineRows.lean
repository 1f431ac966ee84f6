import Nolrem.Cd.Combine

/-!
# The rows of a combination

What the slices of `CdGetRegionCombinationEx` are: in every row the spans are the combination of
those that the two regions have there.
-/

namespace Nolrem.Cd

open Nolrem.Lib (combine Parted InSpans mergeAbove)

/-! ## Where the bands are -/

/-- The span with the translations of the DC and of the region. -/
def placeSpan (dc : Option ScaleDc) (d : RegionData) (s : Int × Int) : Int × Int :=
  (mapX dc s.1 + d.transX.toInt, mapX dc s.2 + d.transX.toInt)

/-- The band with the translations of the DC and of the region. -/
def place (dc : Option ScaleDc) (d : RegionData) (b : Band) : Band where
  y0 := mapY dc b.y0 + d.transY.toInt
  y1 := mapY dc b.y1 + d.transY.toInt
  spans := b.spans.map (placeSpan dc d)

def placed (dc : Option ScaleDc) : Option RegionData → List Band
  | none => []
  | some d => d.bands.map (place dc d)

/-- Bands as `AddScanline` makes them: in order, and not without spans. -/
structure Tidy (l : List Band) : Prop where
  rows : ∀ b ∈ l, b.y0 < b.y1
  order : l.Pairwise fun b c => b.y1 ≤ c.y0
  spans : ∀ b ∈ l, b.spans ≠ [] ∧ Parted b.spans
  rows16 : ∀ b ∈ l, b.y0 ∈ int16s ∧ b.y1 ∈ int16s
  narrow : ∀ b ∈ l, Narrow b.spans

/-- The rows stay within 16 bits also before the translation of the region is added. -/
def FitsDc (dc : Option ScaleDc) (l : List Band) : Prop :=
  ∀ b ∈ l, mapY dc b.y0 ∈ int16s ∧ mapY dc b.y1 ∈ int16s

/-- The bands `l` are still to come, whatever is left of the one before. -/
inductive Coming (dc : Option ScaleDc) : Option RegionData → Context → List Band → Prop where
  | nothing {c : Context} : Coming dc none c []
  | before {d : RegionData} {c : Context} {l : List Band} (h : Before d c l) :
    Coming dc (some d) c (l.map (place dc d))
  | within {d : RegionData} {c : Context} {b : Band} {spans : List (Int × Int)} {l : List Band}
    (h : InBand d dc c b spans l) : Coming dc (some d) c (l.map (place dc d))
  | done {data : Option RegionData} {c : Context} (h : c.done = true) : Coming dc data c []

section Coming

variable {dc : Option ScaleDc} {data : Option RegionData} {c : Context} {l : List Band}

theorem Coming.nil_of_done (h : Coming dc data c l) (hdone : c.done = true) : l = [] := by
  cases h with
  | nothing => rfl
  | before h => simp [h.done] at hdone
  | within h => simp [h.done] at hdone
  | done h => rfl

theorem coming_start (dc : Option ScaleDc) (data : Option RegionData) :
    Coming dc data {} (placed dc data) := by
  cases data with
  | none => exact .nothing
  | some d => exact .before (before_start d)

/-- The next band. -/
theorem Coming.next {b : Band} (h : Coming dc data c (b :: l)) :
    ∃ c', c.resume dc data false = (.band b.y0 b.y1, c') ∧ Coming dc data c' l ∧
      c'.done = false := by
  generalize hl : b :: l = l' at h
  cases h with
  | nothing => cases hl
  | done h => cases hl
  | @before d _ rest h =>
    cases rest with
    | nil => cases hl
    | cons b' rest =>
      obtain ⟨rfl, rfl⟩ := List.cons.inj hl
      obtain ⟨c', hc, hw⟩ := resume_band dc false (Or.inl h)
      exact ⟨c', hc, .within hw, hw.done⟩
  | @within d _ b'' spans rest h =>
    cases rest with
    | nil => cases hl
    | cons b' rest =>
      obtain ⟨rfl, rfl⟩ := List.cons.inj hl
      obtain ⟨c', hc, hw⟩ := resume_band dc false (Or.inr ⟨_, _, h, nofun⟩)
      exact ⟨c', hc, .within hw, hw.done⟩

/-- No band is left. -/
theorem Coming.last (h : Coming dc data c []) :
    ∃ c', c.resume dc data false = (.ended, c') ∧ c'.done = true := by
  by_cases hdone : c.done = true
  · refine ⟨c, ?_, hdone⟩
    unfold Context.resume
    rw [if_pos hdone]
  generalize hl : ([] : List Band) = l' at h
  cases h with
  | nothing =>
    refine ⟨{ c with done := true }, ?_, rfl⟩
    unfold Context.resume
    rw [if_neg hdone]
  | done h => exact absurd h hdone
  | before h =>
    rw [List.map_eq_nil_iff.mp hl.symm] at h
    obtain ⟨c', hc, hd, -⟩ := resume_ended dc false (Or.inl h)
    exact ⟨c', hc, hd⟩
  | within h =>
    rw [List.map_eq_nil_iff.mp hl.symm] at h
    obtain ⟨c', hc, hd, -⟩ := resume_ended dc false (Or.inr ⟨_, _, h, nofun⟩)
    exact ⟨c', hc, hd⟩

end Coming

/-! ## The edges -/

/-- The rows at which bands begin and end. -/
def bandEdges (l : List Band) : List Int := l.flatMap fun b => [b.y0, b.y1]

theorem mem_bandEdges {l : List Band} {y : Int} : y ∈ bandEdges l ↔ ∃ b ∈ l, y = b.y0 ∨ y = b.y1 := by
  simp [bandEdges]

theorem length_bandEdges (l : List Band) : (bandEdges l).length = 2 * l.length := by
  induction l with
  | nil => rfl
  | cons b l ih =>
    show (b.y0 :: b.y1 :: bandEdges l).length = _
    rw [List.length_cons, List.length_cons, ih, List.length_cons]
    omega

theorem Tidy.of_cons {b : Band} {l : List Band} (h : Tidy (b :: l)) : Tidy l :=
  ⟨fun c hc => h.rows c (List.mem_cons_of_mem b hc), (List.pairwise_cons.mp h.order).2,
    fun c hc => h.spans c (List.mem_cons_of_mem b hc),
    fun c hc => h.rows16 c (List.mem_cons_of_mem b hc),
    fun c hc => h.narrow c (List.mem_cons_of_mem b hc)⟩

theorem Tidy.sorted_edges {l : List Band} (h : Tidy l) : (bandEdges l).Pairwise (· ≤ ·) := by
  induction l with
  | nil => exact List.Pairwise.nil
  | cons b l ih =>
    have hb := h.rows b List.mem_cons_self
    have hafter : ∀ y ∈ bandEdges l, b.y1 ≤ y := by
      intro y hy
      obtain ⟨c, hc, hyc⟩ := mem_bandEdges.mp hy
      have hbc := (List.pairwise_cons.mp h.order).1 c hc
      have hrows := h.of_cons.rows c hc
      rcases hyc with rfl | rfl <;> omega
    show (b.y0 :: b.y1 :: bandEdges l).Pairwise (· ≤ ·)
    rw [List.pairwise_cons, List.pairwise_cons]
    refine ⟨List.forall_mem_cons.mpr ⟨hb.le, fun y hy => ?_⟩, hafter, ih h.of_cons⟩
    exact hb.le.trans (hafter y hy)

theorem Tidy.edges16 {l : List Band} (h : Tidy l) : ∀ y ∈ bandEdges l, y ∈ int16s := by
  intro y hy
  obtain ⟨b, hb, rfl | rfl⟩ := mem_bandEdges.mp hy
  · exact (h.rows16 b hb).1
  · exact (h.rows16 b hb).2

/-- The edges `es` are still to come. -/
structure Pending (dc : Option ScaleDc) (data : Option RegionData) (s : EdgeSide) (es : List Int) :
    Prop where
  coming : ∃ l, Coming dc data s.ctxt l ∧ es = s.buffer ++ bandEdges l ∧
    ∀ b ∈ l, b.y0 ∈ int16s ∧ b.y1 ∈ int16s
  done : s.ctxt.done = true → s.buffer = []

section Edges

variable {dc : Option ScaleDc} {data : Option RegionData} {s : EdgeSide} {es : List Int}

theorem Pending.nil_of_done (h : Pending dc data s es) (hdone : s.ctxt.done = true) : es = [] := by
  obtain ⟨⟨l, hl, rfl, -⟩, hbuffer⟩ := h
  rw [hbuffer hdone, hl.nil_of_done hdone]
  rfl

theorem Pending.refill (h : Pending dc data s es) :
    Pending dc data (s.refill dc data) es ∧ ((s.refill dc data).buffer = [] → es = []) := by
  unfold EdgeSide.refill
  by_cases hcond : (s.buffer.isEmpty && !s.ctxt.done) = true
  · obtain ⟨⟨l, hl, rfl, hnarrow⟩, hdone⟩ := h
    obtain ⟨hempty, hrun⟩ := Bool.and_eq_true_iff.mp hcond
    have hbuffer : s.buffer = [] := List.isEmpty_iff.mp hempty
    rw [if_pos hcond, hbuffer]
    cases l with
    | nil =>
      obtain ⟨c', hc, hd⟩ := hl.last
      rw [hc]
      exact ⟨⟨⟨[], .done hd, rfl, nofun⟩, fun _ => rfl⟩, fun _ => rfl⟩
    | cons b l =>
      obtain ⟨c', hc, hcoming, hrun⟩ := hl.next
      obtain ⟨⟨hy0, hy1⟩, hrest⟩ := List.forall_mem_cons.mp hnarrow
      rw [hc]
      dsimp only
      rw [toInt16_of_mem hy0.1 hy0.2, toInt16_of_mem hy1.1 hy1.2]
      refine ⟨⟨⟨l, hcoming, rfl, hrest⟩, fun hd => ?_⟩, fun h => by cases h⟩
      exact absurd (hrun.symm.trans hd) Bool.false_ne_true
  · rw [if_neg hcond]
    refine ⟨h, fun hbuffer => h.nil_of_done ?_⟩
    simpa [hbuffer] using hcond

/-- An edge is taken from the buffer. -/
theorem Pending.take {x : Int} {xs : List Int} (h : Pending dc data s es)
    (hbuffer : s.buffer = x :: xs) :
    ∃ es', es = x :: es' ∧ Pending dc data { s with buffer := xs } es' := by
  obtain ⟨⟨l, hl, rfl, hnarrow⟩, hdone⟩ := h
  refine ⟨xs ++ bandEdges l, by rw [hbuffer]; rfl, ⟨l, hl, rfl, hnarrow⟩, fun hd => ?_⟩
  rw [hdone hd] at hbuffer
  cases hbuffer

theorem pending_start (hl : Tidy (placed dc data)) :
    Pending dc data {} (bandEdges (placed dc data)) :=
  ⟨⟨_, coming_start dc data, rfl, hl.rows16⟩, nofun⟩

end Edges

/-- The edges of both regions are merged. -/
theorem getEdges_eq {dc : Option ScaleDc} {da db : Option RegionData} {fuel : Nat} {a b : EdgeSide}
    {ea eb : List Int} {prev : Int} (ha : Pending none da a ea) (hb : Pending dc db b eb)
    (hfuel : ea.length + eb.length < fuel) :
    getEdges dc da db fuel a b prev = mergeAbove ea eb prev := by
  induction fuel generalizing a b ea eb prev with
  | zero => exact absurd hfuel (Nat.not_lt_zero _)
  | succ fuel ih =>
    unfold getEdges
    by_cases hdone : (a.ctxt.done && b.ctxt.done) = true
    · obtain ⟨hda, hdb⟩ := Bool.and_eq_true_iff.mp hdone
      rw [if_pos hdone, ha.nil_of_done hda, hb.nil_of_done hdb, mergeAbove]
    rw [if_neg hdone]
    obtain ⟨ha, hna⟩ := ha.refill
    obtain ⟨hb, hnb⟩ := hb.refill
    dsimp only
    generalize a.refill none da = a at ha hna
    generalize b.refill dc db = b at hb hnb
    cases hba : a.buffer with
    | nil =>
      cases hbb : b.buffer with
      | nil => rw [hna hba, hnb hbb, mergeAbove]
      | cons y ys =>
        obtain ⟨eb', rfl, hb'⟩ := hb.take hbb
        rw [List.length_cons] at hfuel
        dsimp only
        rw [hna hba, mergeAbove, ← hna hba, ih ha hb' (by omega), ih ha hb' (by omega)]
    | cons x xs =>
      obtain ⟨ea', rfl, ha'⟩ := ha.take hba
      rw [List.length_cons] at hfuel
      cases hbb : b.buffer with
      | nil =>
        dsimp only
        rw [hnb hbb, mergeAbove, ← hnb hbb, ih ha' hb (by omega), ih ha' hb (by omega)]
      | cons y ys =>
        obtain ⟨eb', rfl, hb'⟩ := hb.take hbb
        rw [List.length_cons] at hfuel
        dsimp only
        rw [mergeAbove]
        have hleft (prev : Int) : getEdges dc da db fuel { a with buffer := xs } b prev =
            mergeAbove ea' (y :: eb') prev := ih ha' hb (by rw [List.length_cons]; omega)
        have hright (prev : Int) : getEdges dc da db fuel a { b with buffer := ys } prev =
            mergeAbove (x :: ea') eb' prev := ih ha hb' (by rw [List.length_cons]; omega)
        rw [hleft, hleft, hright, hright]

/-! ## The spans of a slice -/

/-- The context stands in the first of the bands `l`, of which no span has been read. -/
inductive Primed (dc : Option ScaleDc) : Option RegionData → Context → List Band → Prop where
  | band {d : RegionData} {c : Context} {b : Band} {l : List Band} (h : InBand d dc c b b.spans l)
    (hfits : FitsDc dc (b :: l)) :
    Primed dc (some d) c (place dc d b :: l.map (place dc d))
  | ended {data : Option RegionData} {c : Context} (h : c.done = true) : Primed dc data c []

section Load

variable {dc : Option ScaleDc} {d : RegionData} {data : Option RegionData} {s : LoadSide}

theorem Primed.done_iff {c : Context} {l : List Band} (h : Primed dc data c l) :
    c.done = true ↔ l = [] := by
  cases h with
  | band h => simp [h.done]
  | ended h => simp [h]

/-- The first call stops at the first band. -/
theorem primed_start (hfits : ∀ d, data = some d → FitsDc dc d.bands) :
    Primed dc data (Context.resume dc {} data false).2 (placed dc data) := by
  cases data with
  | none => exact .ended rfl
  | some d =>
    have h := before_start d
    have hfits := hfits d rfl
    show Primed dc (some d) _ (d.bands.map (place dc d))
    cases hl : d.bands with
    | nil =>
      rw [hl] at h
      obtain ⟨c', hc, hd, -⟩ := resume_ended dc false (Or.inl h)
      rw [hc]
      exact .ended hd
    | cons b l =>
      rw [hl] at h hfits
      obtain ⟨c', hc, hw⟩ := resume_band dc false (Or.inl h)
      rw [hc]
      exact .band hw hfits

/-- Behind the spans of a band. -/
theorem resume_behind {c : Context} {b : Band} {l : List Band} (h : InBand d dc c b [] l)
    (hfits : FitsDc dc l) :
    ∃ stop c', c.resume dc (some d) true = (stop, c') ∧ (∀ x0 x1, stop ≠ .rect x0 x1) ∧
      Primed dc (some d) c' (l.map (place dc d)) ∧ (c'.done = true → c'.i ≠ 0) := by
  cases l with
  | nil =>
    obtain ⟨c', hc, hd, hi⟩ := resume_ended dc true (Or.inr ⟨_, _, h, fun _ => rfl⟩)
    exact ⟨_, c', hc, nofun, .ended hd, fun _ => hi h.doneBandCallback⟩
  | cons b' l =>
    obtain ⟨c', hc, hw⟩ := resume_band dc true (Or.inr ⟨_, _, h, fun _ => rfl⟩)
    refine ⟨_, c', hc, nofun, .band hw hfits, fun hd => ?_⟩
    exact absurd (hw.done.symm.trans hd) Bool.false_ne_true

/-- A span that does not end before it begins is put behind those that have been read. -/
theorem storeSpan_eq {m n k : Nat} {l : List (Int × Int)} {x0 x1 : Int} (hn : l.length = n)
    (hle : x0 ≤ x1) : storeSpan dc m n (l ++ List.replicate (k + 1) (0, 0)) x0 x1 =
      l ++ [(x0, x1)] ++ List.replicate k (0, 0) := by
  rw [storeSpan, if_neg fun h => absurd h.2 (not_lt.mpr hle), ← hn, List.replicate_succ,
    List.set_append_right _ _ (Nat.le_refl _), Nat.sub_self, List.set_cons_zero, List.append_assoc,
    List.singleton_append]

/-- All of the spans that are left are read. -/
theorem readPoints_spec (fuel : Nat) {b : Band} {l : List Band} (read : List (Int × Int))
    {spans : List (Int × Int)}
    (h : InBand d dc s.ctxt b spans l) (hfits : FitsDc dc l)
    (hspans : ∀ p ∈ spans.map (placeSpan dc d), p.1 ∈ int16s ∧ p.2 ∈ int16s ∧ p.1 ≤ p.2)
    (hpoints : s.xPoints = read ++ List.replicate spans.length (0, 0))
    (hnum : s.numXSpans = read.length) (hfuel : spans.length < fuel) :
    ∃ c, readPoints dc (some d) fuel s =
        { s with
          ctxt := c
          xPoints := read ++ spans.map (placeSpan dc d)
          numXSpans := (read ++ spans.map (placeSpan dc d)).length } ∧
      Primed dc (some d) c (l.map (place dc d)) ∧ (c.done = true → c.i ≠ 0) := by
  induction fuel generalizing s spans read with
  | zero => exact absurd hfuel (Nat.not_lt_zero _)
  | succ fuel ih =>
    unfold readPoints
    cases spans with
    | nil =>
      obtain ⟨stop, c, hc, hstop, hprimed, hi⟩ := resume_behind h hfits
      rw [hc]
      refine ⟨c, ?_, hprimed, hi⟩
      rw [List.length_nil, List.replicate_zero, List.append_nil] at hpoints
      have hs : { s with ctxt := c } = { s with
          ctxt := c, xPoints := read ++ [], numXSpans := (read ++ []).length } := by
        rw [List.append_nil, ← hpoints, hpoints, ← hnum, ← hpoints]
      cases stop with
      | rect x0 x1 => exact absurd rfl (hstop x0 x1)
      | band => exact hs
      | ended => exact hs
    | cons p spans =>
      obtain ⟨c, hc, hw⟩ := resume_rect h
      obtain ⟨⟨h0, h1, hle⟩, hrest⟩ := List.forall_mem_cons.mp hspans
      dsimp only [placeSpan] at h0 h1 hle
      have hlist : read ++ [placeSpan dc d p] ++ spans.map (placeSpan dc d) =
          read ++ (p :: spans).map (placeSpan dc d) := List.append_assoc _ _ _
      rw [hc]
      dsimp only
      rw [toInt16_of_mem h0.1 h0.2, toInt16_of_mem h1.1 h1.2, hpoints, List.length_cons,
        storeSpan_eq hnum.symm hle, ← hlist]
      exact ih (s := { s with
          ctxt := c
          xPoints := read ++ [placeSpan dc d p] ++ List.replicate spans.length (0, 0)
          numXSpans := s.numXSpans + 1 }) _ hw hrest rfl
        (by rw [List.length_append, ← hnum]; rfl) (Nat.lt_of_succ_lt_succ hfuel)

/-- The band that has been read last, if one has been. -/
inductive Holds (s : LoadSide) : List Band → Prop where
  | nothing (y0 : s.y0 = -32769) (y1 : s.y1 = -32769) : Holds s []
  | band {b : Band} (y0 : s.y0 = b.y0) (y1 : s.y1 = b.y1)
    (spans : s.xPoints.take s.numXSpans = b.spans) (hi : s.ctxt.done = true → s.ctxt.i ≠ 0) :
    Holds s [b]

/-- A band is read. -/
theorem loadBand_spec {b : Band} {l : List Band} (h : Primed dc data s.ctxt (b :: l))
    (hspans : b.spans ≠ [] ∧ Parted b.spans) (hnarrow : Narrow b.spans) :
    ∃ s', loadBand dc data s = some s' ∧ Holds s' [b] ∧ Primed dc data s'.ctxt l := by
  cases h with
  | @band d _ b l h hfits =>
    obtain ⟨⟨hy0, hy1⟩, hrest⟩ := List.forall_mem_cons.mp hfits
    have hne : s.ctxt.header.numSpans ≠ 0 := by
      rw [h.numSpans]
      intro h0
      rw [List.length_eq_zero_iff] at h0
      exact hspans.1 (by show b.spans.map _ = []; rw [h0]; rfl)
    obtain ⟨c, hread, hprimed, hi⟩ := readPoints_spec (s.ctxt.header.numSpans + 1) []
      (s := { ctxt := s.ctxt
              y0 := s.ctxt.scaledY0 + transY (some d)
              y1 := s.ctxt.scaledY1 + transY (some d)
              xPoints := List.replicate s.ctxt.header.numSpans (0, 0)
              numXSpans := 0 }) h hrest
      (fun p hp => ⟨(hnarrow p hp).1, (hnarrow p hp).2, (hspans.2.lt p hp).le⟩)
      (by rw [h.numSpans]; rfl) rfl (by rw [h.numSpans]; exact Nat.lt_succ_self _)
    refine ⟨_, (if_neg hne).trans (congrArg some hread), .band ?_ ?_ ?_ hi, hprimed⟩
    · show s.ctxt.scaledY0 + d.transY.toInt = mapY dc b.y0 + d.transY.toInt
      rw [h.y0, toInt16_of_mem hy0.1 hy0.2]
    · show s.ctxt.scaledY1 + d.transY.toInt = mapY dc b.y1 + d.transY.toInt
      rw [h.y1, toInt16_of_mem hy1.1 hy1.2]
    · show List.take _ ([] ++ _) = _
      rw [List.take_length]
      rfl

/-- The bands `all` are being gone through: those that have been passed end before row `y`. -/
structure Loaded (dc : Option ScaleDc) (data : Option RegionData) (all : List Band) (s : LoadSide)
    (y : Int) (rest : List Band) : Prop where
  split : ∃ passed cur, all = passed ++ (cur ++ rest) ∧ (∀ b ∈ passed, b.y1 ≤ y) ∧ Holds s cur ∧
    (cur = [] → passed = [])
  primed : Primed dc data s.ctxt rest

/-- Bands are read until one does not end before row `y`. -/
theorem loadTo_spec {all rest : List Band} {y : Int} {fuel : Nat} (hall : Tidy all)
    (h : Loaded dc data all s y rest) (hfuel : rest.length ≤ fuel) :
    ∃ s' rest', loadTo dc data y fuel s = some s' ∧ Loaded dc data all s' y rest' ∧
      rest'.length ≤ rest.length ∧ (rest' = [] ∨ y < s'.y1) := by
  induction fuel generalizing s rest with
  | zero =>
    exact ⟨s, rest, rfl, h, Nat.le_refl _,
      Or.inl (List.length_eq_zero_iff.mp (Nat.le_zero.mp hfuel))⟩
  | succ fuel ih =>
    unfold loadTo
    by_cases hcond : (!s.ctxt.done && decide (s.y1 ≤ y)) = true
    · obtain ⟨hrun, hy⟩ := Bool.and_eq_true_iff.mp hcond
      rw [if_pos hcond]
      obtain ⟨⟨passed, cur, rfl, hpassed, hcur, hnil⟩, hprimed⟩ := h
      cases rest with
      | nil =>
        rw [hprimed.done_iff.mpr rfl] at hrun
        cases hrun
      | cons b rest =>
        have hb : b ∈ passed ++ (cur ++ b :: rest) :=
          List.mem_append_right _ (List.mem_append_right _ List.mem_cons_self)
        obtain ⟨s', hload, hholds, hprimed'⟩ :=
          loadBand_spec hprimed (hall.spans b hb) (hall.narrow b hb)
        rw [hload, Option.bind_some]
        have hnext : Loaded dc data (passed ++ (cur ++ b :: rest)) s' y rest := by
          refine ⟨⟨passed ++ cur, [b], by simp, ?_, hholds, by simp⟩, hprimed'⟩
          refine List.forall_mem_append.mpr ⟨hpassed, fun c hc => ?_⟩
          cases hcur with
          | nothing => exact absurd hc List.not_mem_nil
          | band _ hy1 _ _ =>
            rw [List.mem_singleton.mp hc, ← hy1]
            exact of_decide_eq_true hy
        obtain ⟨s'', rest', hto, hloaded, hlen, hend⟩ :=
          ih hnext (Nat.le_of_succ_le_succ hfuel)
        exact ⟨s'', rest', hto, hloaded, hlen.trans (Nat.le_succ _), hend⟩
    · rw [if_neg hcond]
      refine ⟨s, rest, rfl, h, Nat.le_refl _, ?_⟩
      by_cases hd : s.ctxt.done = true
      · exact Or.inl (h.primed.done_iff.mp hd)
      · right
        simpa [Bool.eq_false_iff.mpr hd] using hcond

theorem rowSpans_eq_nil {l : List Band} {y : Int} (h : ∀ b ∈ l, ¬ (b.y0 ≤ y ∧ y < b.y1)) :
    rowSpans l y = [] := by
  unfold rowSpans
  rw [List.filter_eq_nil_iff.mpr fun b hb => by simpa using h b hb]
  rfl

theorem rowSpans_singleton (b : Band) (y : Int) :
    rowSpans [b] y = if b.y0 ≤ y ∧ y < b.y1 then b.spans else [] := by
  unfold rowSpans
  simp only [List.filter_cons, List.filter_nil, decide_eq_true_eq]
  split_ifs
  · exact List.append_nil _
  · rfl

/-- What is there in the slice is what the row has. -/
theorem spansAt_eq {all rest : List Band} {y : Int} (hall : Tidy all)
    (h : Loaded dc data all s y rest) (hend : rest = [] ∨ y < s.y1) (hy : -32768 ≤ y) :
    s.spansAt y = rowSpans all y := by
  obtain ⟨⟨passed, cur, rfl, hpassed, hcur, hnil⟩, -⟩ := h
  rw [rowSpans_append, rowSpans_append,
    rowSpans_eq_nil fun b hb hin => absurd (hpassed b hb) (not_le.mpr hin.2), List.nil_append]
  unfold LoadSide.spansAt
  cases hcur with
  | nothing h0 h1 =>
    have hrest : rest = [] := hend.resolve_right (by omega)
    rw [if_neg (by omega), hrest]
    rfl
  | @band b h0 h1 hspans hi =>
    have hbehind : rowSpans rest y = [] := by
      rcases hend with rfl | hlt
      · rfl
      · refine rowSpans_eq_nil fun c hc hin => ?_
        have hbc := (List.pairwise_cons.mp (List.pairwise_append.mp hall.order).2.1).1 c hc
        omega
    have hcond : (!(s.ctxt.i == 0 && s.ctxt.done)) = true := by
      cases hd : s.ctxt.done with
      | false => simp
      | true => simp [hi hd]
    rw [hbehind, List.append_nil, rowSpans_singleton, hspans, h0, h1]
    simp only [hcond, and_true]

/-- The next slice. -/
theorem Loaded.mono {all rest : List Band} {y y' : Int} (h : Loaded dc data all s y rest)
    (hle : y ≤ y') : Loaded dc data all s y' rest := by
  obtain ⟨⟨passed, cur, hall, hpassed, hcur, hnil⟩, hprimed⟩ := h
  exact ⟨⟨passed, cur, hall, fun b hb => (hpassed b hb).trans hle, hcur, hnil⟩, hprimed⟩

/-- At first nothing is loaded. -/
theorem loaded_start (hfits : ∀ d, data = some d → FitsDc dc d.bands) (y : Int) :
    Loaded dc data (placed dc data) { ctxt := (Context.resume dc {} data false).2 } y
      (placed dc data) :=
  ⟨⟨[], [], rfl, nofun, .nothing rfl rfl, fun _ => rfl⟩, primed_start hfits⟩

end Load

/-! ## The slices -/

section Slices

variable {f : Bool → Bool → Bool} {la lb : List Band}

/-- The rows of the slices that begin and end at the edges. -/
def slices (f : Bool → Bool → Bool) (la lb : List Band) : List Int → List Row
  | y0 :: y1 :: ys =>
    sliceRows y0 y1 (combine f (rowSpans la y0) (rowSpans lb y0)) ++ slices f la lb (y1 :: ys)
  | _ => []

theorem addSlices_eq {mode : CombineMode} {dc : Option ScaleDc} {da db : Option RegionData}
    {a b : LoadSide} {ra rb : List Band} {y : Int} {ys : List Int} (hla : Tidy la) (hlb : Tidy lb)
    (ha : Loaded none da la a y ra) (hb : Loaded dc db lb b y rb)
    (hra : ra.length ≤ numBandsOf da) (hrb : rb.length ≤ numBandsOf db)
    (hys : (y :: ys).Pairwise (· ≤ ·)) (hy : -32768 ≤ y) :
    addSlices mode dc da db ys a b = some (slices (checkRegionCondition mode) la lb ys) := by
  induction ys generalizing a b ra rb y with
  | nil => rfl
  | cons y0 ys ih =>
    cases ys with
    | nil => rfl
    | cons y1 ys =>
      obtain ⟨hle, hys⟩ := List.pairwise_cons.mp hys
      have hy0 : y ≤ y0 := hle y0 List.mem_cons_self
      obtain ⟨a', ra', hloada, ha', hlena, henda⟩ := loadTo_spec hla (ha.mono hy0) hra
      obtain ⟨b', rb', hloadb, hb', hlenb, hendb⟩ := loadTo_spec hlb (hb.mono hy0) hrb
      have hrest := ih ha' hb' (hlena.trans hra) (hlenb.trans hrb) hys (hy.trans hy0)
      rw [addSlices, hloada]
      show (loadTo dc db y0 (numBandsOf db) b).bind _ = _
      rw [hloadb, Option.bind_some, hrest, spansAt_eq hla ha' henda (hy.trans hy0),
        spansAt_eq hlb hb' hendb (hy.trans hy0)]
      rfl

theorem length_sliceRows (y0 y1 : Int) (spans : List (Int × Int)) :
    (sliceRows y0 y1 spans).length = (y1 - y0).toNat := by
  rw [sliceRows, List.length_map, List.length_range]

/-- A row is one of the slice or one behind it. -/
theorem rowAt_sliceRows_append {y0 y1 : Int} (hle : y0 ≤ y1) (spans : List (Int × Int))
    (rows : List Row) (k : Int) :
    rowAt (sliceRows y0 y1 spans ++ rows) k =
      if k < y1 - y0 then if 0 ≤ k then spans else [] else rowAt rows (k - (y1 - y0)) := by
  have hlen := length_sliceRows y0 y1 spans
  by_cases hneg : k < 0
  · rw [rowAt, if_pos hneg, if_pos (by omega), if_neg (by omega)]
  by_cases hlt : k < y1 - y0
  · rw [rowAt, if_neg hneg, if_pos hlt, if_pos (by omega), List.getD_append _ _ _ _ (by omega)]
    have hrow := rowAt_map_range (fun i => (spans, i != 0)) (y1 - y0).toNat k
    rw [if_pos (by omega), rowAt, if_neg hneg] at hrow
    exact hrow
  · rw [if_neg hlt, rowAt, if_neg hneg, rowAt, if_neg (by omega),
      List.getD_append_right _ _ _ _ (by omega), hlen]
    congr 3
    omega

/-- A row between two edges has the spans of the first of them. -/
theorem rowSpans_between {l : List Band} {y0 y1 y : Int} (hy0 : y0 ≤ y) (hy1 : y < y1)
    (hedges : ∀ e ∈ bandEdges l, e ≤ y0 ∨ y1 ≤ e) : rowSpans l y = rowSpans l y0 := by
  unfold rowSpans
  rw [List.filter_congr fun b hb => ?_]
  have h0 := hedges b.y0 (mem_bandEdges.mpr ⟨b, hb, Or.inl rfl⟩)
  have h1 := hedges b.y1 (mem_bandEdges.mpr ⟨b, hb, Or.inr rfl⟩)
  exact decide_eq_decide.mpr (by omega)

theorem rowAt_nil (k : Int) : rowAt [] k = [] :=
  rowAt_of_empty (fun _ h => absurd h List.not_mem_nil) k

/-- In every row of the slices the spans of both regions are combined. -/
theorem rowAt_slices {y last : Int} {ys : List Int} (hys : (y :: ys).Pairwise (· < ·))
    (hlast : (y :: ys).getLast? = some last) (hla : ∀ e ∈ bandEdges la, e ≤ y ∨ e ∈ ys)
    (hlb : ∀ e ∈ bandEdges lb, e ≤ y ∨ e ∈ ys) (k : Int) :
    rowAt (slices f la lb (y :: ys)) k =
      if 0 ≤ k ∧ y + k < last then combine f (rowSpans la (y + k)) (rowSpans lb (y + k)) else [] := by
  induction ys generalizing y k with
  | nil =>
    obtain rfl : y = last := by simpa using hlast
    rw [if_neg (by omega)]
    exact rowAt_nil k
  | cons y1 ys ih =>
    obtain ⟨hy, hys⟩ := List.pairwise_cons.mp hys
    have hlt : y < y1 := hy y1 List.mem_cons_self
    have hlast' : (y1 :: ys).getLast? = some last := by
      rwa [List.getLast?_cons_cons] at hlast
    have hle : y1 ≤ last := by
      have hmem := List.mem_of_getLast? hlast'
      rcases List.mem_cons.mp hmem with rfl | hmem
      · exact Int.le_refl _
      · exact ((List.pairwise_cons.mp hys).1 last hmem).le
    have hafter {l : List Band} (hl : ∀ e ∈ bandEdges l, e ≤ y ∨ e ∈ y1 :: ys) :
        (∀ e ∈ bandEdges l, e ≤ y1 ∨ e ∈ ys) ∧ ∀ e ∈ bandEdges l, e ≤ y ∨ y1 ≤ e := by
      refine ⟨fun e he => ?_, fun e he => (hl e he).imp_right fun hmem => ?_⟩
      · rcases hl e he with h | h
        · exact Or.inl (h.trans hlt.le)
        · exact (List.mem_cons.mp h).imp_left le_of_eq
      · rcases List.mem_cons.mp hmem with rfl | hmem
        · exact Int.le_refl _
        · exact ((List.pairwise_cons.mp hys).1 e hmem).le
    rw [slices, rowAt_sliceRows_append hlt.le]
    by_cases hk : k < y1 - y
    · rw [if_pos hk]
      by_cases h0 : 0 ≤ k
      · rw [if_pos h0, if_pos (by omega),
          rowSpans_between (y := y + k) (by omega) (by omega) (hafter hla).2,
          rowSpans_between (y := y + k) (by omega) (by omega) (hafter hlb).2]
      · rw [if_neg h0, if_neg fun h => h0 h.1]
    · rw [if_neg hk, ih hys hlast' (hafter hla).1 (hafter hlb).1,
        show y1 + (k - (y1 - y)) = y + k by omega]
      exact if_congr (by omega) rfl rfl

theorem length_slices (f : Bool → Bool → Bool) (la lb : List Band) {y last : Int} {ys : List Int} (hys : (y :: ys).Pairwise (· < ·))
    (hlast : (y :: ys).getLast? = some last) :
    ((slices f la lb (y :: ys)).length : Int) = last - y := by
  induction ys generalizing y with
  | nil =>
    obtain rfl : y = last := by simpa using hlast
    show ((0 : Nat) : Int) = _
    omega
  | cons y1 ys ih =>
    obtain ⟨hy, hys⟩ := List.pairwise_cons.mp hys
    have hlt : y < y1 := hy y1 List.mem_cons_self
    have hrest := ih hys (by rwa [List.getLast?_cons_cons] at hlast)
    rw [slices, List.length_append, length_sliceRows]
    omega

/-- Every row is the combination of some row of both regions. -/
theorem mem_slices {ys : List Int} {row : Row} (h : row ∈ slices f la lb ys) :
    ∃ y, row.1 = combine f (rowSpans la y) (rowSpans lb y) := by
  induction ys with
  | nil => exact absurd h List.not_mem_nil
  | cons y0 ys ih =>
    cases ys with
    | nil => exact absurd h List.not_mem_nil
    | cons y1 ys =>
      rcases List.mem_append.mp h with h | h
      · obtain ⟨i, -, rfl⟩ := List.mem_map.mp h
        exact ⟨y0, rfl⟩
      · exact ih h

/-- A row that is known to be as the one before is. -/
theorem isChain_slices (f : Bool → Bool → Bool) (la lb : List Band) {ys : List Int} (hys : ys.Pairwise (· < ·)) :
    (slices f la lb ys).IsChain fun prev row => row.2 = true → row.1 = prev.1 := by
  have hhead : ∀ (ys : List Int), ys.Pairwise (· < ·) →
      ∀ row ∈ (slices f la lb ys).head?, row.2 = false := by
    intro ys hys row hrow
    cases ys with
    | nil => exact absurd hrow (by simp [slices])
    | cons y0 ys =>
      cases ys with
      | nil => exact absurd hrow (by simp [slices])
      | cons y1 ys =>
        have hlt : y0 < y1 := (List.pairwise_cons.mp hys).1 y1 List.mem_cons_self
        obtain ⟨n, hn⟩ := Nat.exists_eq_succ_of_ne_zero (show (y1 - y0).toNat ≠ 0 by omega)
        rw [slices, sliceRows, hn, List.range_succ_eq_map] at hrow
        obtain rfl := Option.some.inj hrow
        rfl
  induction ys with
  | nil => exact List.IsChain.nil
  | cons y0 ys ih =>
    cases ys with
    | nil => exact List.IsChain.nil
    | cons y1 ys =>
      rw [slices, List.isChain_append]
      refine ⟨?_, ih (List.pairwise_cons.mp hys).2, fun prev _ row hrow hflag => ?_⟩
      · rw [sliceRows, List.isChain_map, List.isChain_range]
        exact fun _ _ _ => rfl
      · have hrow := hhead _ (List.pairwise_cons.mp hys).2 row hrow
        exact absurd (hrow.symm.trans hflag) Bool.false_ne_true

end Slices

/-! ## The combination -/

theorem checkRegionCondition_false (mode : CombineMode) :
    checkRegionCondition mode false false = false := by
  cases mode <;> rfl

theorem combine_nil (f : Bool → Bool → Bool) : combine f ([] : List (Int × Int)) [] = [] := by
  rw [combine, Lib.points_nil, Lib.sweep]
  rfl

/-- The rows of tidy bands. -/
theorem Tidy.row {l : List Band} (h : Tidy l) (y : Int) :
    rowSpans l y = [] ∨ ∃ b ∈ l, b.y0 ≤ y ∧ y < b.y1 ∧ rowSpans l y = b.spans := by
  induction l with
  | nil => exact Or.inl rfl
  | cons b l ih =>
    have hcons : rowSpans (b :: l) y = rowSpans [b] y ++ rowSpans l y := rowSpans_append [b] l y
    rw [hcons, rowSpans_singleton]
    by_cases hb : b.y0 ≤ y ∧ y < b.y1
    · have hbehind : rowSpans l y = [] := by
        refine rowSpans_eq_nil fun c hc hin => ?_
        have hbc := (List.pairwise_cons.mp h.order).1 c hc
        omega
      right
      exact ⟨b, List.mem_cons_self, hb.1, hb.2, by rw [if_pos hb, hbehind, List.append_nil]⟩
    · rw [if_neg hb, List.nil_append]
      exact (ih h.of_cons).imp_right fun ⟨c, hc, hin⟩ => ⟨c, List.mem_cons_of_mem b hc, hin⟩

theorem Tidy.parted_row {l : List Band} (h : Tidy l) (y : Int) : Parted (rowSpans l y) := by
  rcases h.row y with h0 | ⟨b, hb, -, -, hrow⟩
  · rw [h0]
    exact List.Pairwise.nil
  · rw [hrow]
    exact (h.spans b hb).2

theorem Tidy.narrow_row {l : List Band} (h : Tidy l) (y : Int) : Narrow (rowSpans l y) := by
  rcases h.row y with h0 | ⟨b, hb, -, -, hrow⟩
  · rw [h0]
    exact nofun
  · rw [hrow]
    exact h.narrow b hb

theorem length_placed (dc : Option ScaleDc) (data : Option RegionData) :
    (placed dc data).length = numBandsOf data := by
  have hlen (band : Nat → Nat) (n : Nat) (it : Iter) : (bands band n it).length = n := by
    induction n generalizing it with
    | zero => rfl
    | succ n ih => rw [bands, List.length_cons, ih]
  cases data with
  | none => rfl
  | some d => exact (List.length_map _).trans (hlen _ _ _)

/-- What `AddScanline` is given: rows within 16 bits whose spans do not touch. -/
structure GoodRows (y0 : Int) (rows : List Row) : Prop where
  start : -32768 ≤ y0
  finish : y0 + rows.length ≤ 32767
  fits : ∀ row ∈ rows, Narrow row.1 ∧ row.1.length ≤ 16383
  parted : ∀ row ∈ rows, Parted row.1
  known : rows.IsChain fun prev row => row.2 = true → row.1 = prev.1

section Combination

variable {mode : CombineMode} {dc : Option ScaleDc} {da db : Option RegionData} (h : RegionHeap)
  (ha : Tidy (placed none da)) (hb : Tidy (placed dc db))
  (hfitsa : ∀ d, da = some d → FitsDc none d.bands)
  (hfitsb : ∀ d, db = some d → FitsDc dc d.bands)
  (hcount : ∀ y, (rowSpans (placed none da) y).length + (rowSpans (placed dc db) y).length ≤ 16383)

include ha hb hcount in
theorem combine_row (y : Int) :
    let spans := combine (checkRegionCondition mode) (rowSpans (placed none da) y)
      (rowSpans (placed dc db) y)
    (Narrow spans ∧ spans.length ≤ 16383) ∧ Parted spans := by
  have hf := checkRegionCondition_false mode
  have hpa := ha.parted_row y
  have hpb := hb.parted_row y
  refine ⟨⟨fun s hs => ?_, (Lib.length_combine_le hf hpa hpb).trans (hcount y)⟩,
    Lib.parted_combine hf hpa hpb⟩
  have hmem (x : Int) (hx : x = s.1 ∨ x = s.2) : x ∈ int16s := by
    rcases Lib.mem_points_combine hf hpa hpb (Lib.mem_points.mpr ⟨s, hs, hx⟩) with hx | hx
    · obtain ⟨t, ht, rfl | rfl⟩ := Lib.mem_points.mp hx
      · exact (ha.narrow_row y t ht).1
      · exact (ha.narrow_row y t ht).2
    · obtain ⟨t, ht, rfl | rfl⟩ := Lib.mem_points.mp hx
      · exact (hb.narrow_row y t ht).1
      · exact (hb.narrow_row y t ht).2
  exact ⟨hmem s.1 (Or.inl rfl), hmem s.2 (Or.inr rfl)⟩

include ha hb hfitsa hfitsb hcount

/--
The general path of `CdGetRegionCombinationEx` makes a region of rows, each of which is the
combination of the rows of both regions.
-/
theorem combineBands_rows (mode : CombineMode) : ∃ y0 rows,
    combineBands mode dc da db h = buildRegion h y0 rows ∧ GoodRows y0 rows ∧
    ∀ y, rowAt rows (y - y0) = combine (checkRegionCondition mode) (rowSpans (placed none da) y)
      (rowSpans (placed dc db) y) := by
  have hlena := length_placed none da
  have hlenb := length_placed dc db
  have hmerged := Lib.mergeAbove_spec (-32769) ha.sorted_edges hb.sorted_edges
  have hedges : getEdges dc da db (2 * numBandsOf da + 2 * numBandsOf db + 1) {} {} (-32769) =
      mergeAbove (bandEdges (placed none da)) (bandEdges (placed dc db)) (-32769) := by
    refine getEdges_eq (pending_start ha) (pending_start hb) ?_
    rw [length_bandEdges, length_bandEdges, hlena, hlenb]
    exact Nat.lt_succ_self _
  generalize mergeAbove (bandEdges (placed none da)) (bandEdges (placed dc db)) (-32769) =
    edges at hmerged hedges
  have hin (e : Int) (he : e ∈ bandEdges (placed none da) ∨ e ∈ bandEdges (placed dc db)) :
      e ∈ edges :=
    (hmerged.mem e).mpr ⟨he, by
      have := he.elim (ha.edges16 e) (hb.edges16 e)
      exact Int.lt_of_lt_of_le (by decide) this.1⟩
  have h16 (e : Int) (he : e ∈ edges) : e ∈ int16s :=
    ((hmerged.mem e).mp he).1.elim (ha.edges16 e) (hb.edges16 e)
  have hslices : addSlices mode dc da db edges
      { ctxt := (Context.resume none {} da false).2 } { ctxt := (Context.resume dc {} db false).2 } =
      some (slices (checkRegionCondition mode) (placed none da) (placed dc db) edges) := by
    refine addSlices_eq (y := -32768) ha hb (loaded_start hfitsa _) (loaded_start hfitsb _) hlena.le
      hlenb.le ?_ (Int.le_refl _)
    exact List.pairwise_cons.mpr ⟨fun e he => (h16 e he).1, hmerged.sorted.imp le_of_lt⟩
  have hgood : ∀ row ∈ slices (checkRegionCondition mode) (placed none da) (placed dc db) edges,
      (Narrow row.1 ∧ row.1.length ≤ 16383) ∧ Parted row.1 := by
    intro row hrow
    obtain ⟨y, hy⟩ := mem_slices hrow
    rw [hy]
    exact combine_row ha hb hcount y
  have hchain := isChain_slices (checkRegionCondition mode) (placed none da) (placed dc db)
    hmerged.sorted
  refine ⟨edges.headD 0, slices (checkRegionCondition mode) (placed none da) (placed dc db) edges,
    ?_, ?_⟩
  · unfold combineBands
    dsimp only
    rw [hedges, hslices]
  -- a row in which no band is has no spans
  have hnone {l : List Band} {y : Int} (hl : ∀ e ∈ bandEdges l, e ∈ edges)
      (hy : ∀ e ∈ edges, y < e ∨ ∀ e' ∈ edges, e' ≤ y) : rowSpans l y = [] := by
    refine rowSpans_eq_nil fun b hb hbin => ?_
    have h0 := hl b.y0 (mem_bandEdges.mpr ⟨b, hb, Or.inl rfl⟩)
    have h1 := hl b.y1 (mem_bandEdges.mpr ⟨b, hb, Or.inr rfl⟩)
    rcases hy b.y0 h0 with hlt | hle
    · omega
    · have := hle b.y1 h1
      omega
  cases edges with
  | nil =>
    refine ⟨⟨by decide, ?_, fun row hrow => (hgood row hrow).1,
      fun row hrow => (hgood row hrow).2, hchain⟩, fun y => ?_⟩
    · show (0 : Int) + ((0 : Nat) : Int) ≤ 32767
      decide
    rw [hnone (fun e he => hin e (Or.inl he)) nofun, hnone (fun e he => hin e (Or.inr he)) nofun,
      combine_nil]
    exact rowAt_nil _
  | cons y0 ys =>
    obtain ⟨last, hlast⟩ : ∃ last, (y0 :: ys).getLast? = some last :=
      ⟨_, List.getLast?_eq_some_getLast (List.cons_ne_nil _ _)⟩
    have hsorted := hmerged.sorted
    have hbounds (e : Int) (he : e ∈ y0 :: ys) : y0 ≤ e ∧ e ≤ last := by
      constructor
      · rcases List.mem_cons.mp he with rfl | he
        · exact Int.le_refl _
        · exact ((List.pairwise_cons.mp hsorted).1 e he).le
      · obtain ⟨front, hfront⟩ := List.getLast?_eq_some_iff.mp hlast
        rw [hfront] at he hsorted
        rcases List.mem_append.mp he with he | he
        · exact ((List.pairwise_append.mp hsorted).2.2 e he last (List.mem_singleton_self _)).le
        · exact (List.mem_singleton.mp he).le
    have hlen := length_slices (checkRegionCondition mode) (placed none da) (placed dc db) hsorted
      hlast
    refine ⟨⟨(h16 y0 List.mem_cons_self).1, ?_, fun row hrow => (hgood row hrow).1,
      fun row hrow => (hgood row hrow).2, hchain⟩, fun y => ?_⟩
    · show y0 + _ ≤ _
      have := (h16 last (List.mem_of_getLast? hlast)).2
      omega
    · show rowAt _ (y - y0) = _
      have hedge {l : List Band} (hl : ∀ e ∈ bandEdges l, e ∈ y0 :: ys) :
          ∀ e ∈ bandEdges l, e ≤ y0 ∨ e ∈ ys :=
        fun e he => (List.mem_cons.mp (hl e he)).imp_left le_of_eq
      rw [rowAt_slices hsorted hlast (hedge fun e he => hin e (Or.inl he))
        (hedge fun e he => hin e (Or.inr he)), show y0 + (y - y0) = y by omega]
      split_ifs with hy
      · rfl
      · have hout : ∀ e ∈ y0 :: ys, y < e ∨ ∀ e' ∈ y0 :: ys, e' ≤ y := by
          intro e he
          by_cases hlt : y < y0
          · exact Or.inl (by have := (hbounds e he).1; omega)
          · exact Or.inr fun e' he' => by have := (hbounds e' he').2; omega
        rw [hnone (fun e he => hin e (Or.inl he)) hout, hnone (fun e he => hin e (Or.inr he)) hout,
          combine_nil]

end Combination

end Nolrem.Cd
