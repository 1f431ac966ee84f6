import Nolrem.Cd.CombineRows

/-!
# Iterations that are resumed

A caller of `IterateRegionCoroutine` goes on where it stopped, and each time asks for bands only or
for rectangles too. However it does, it sees what one who goes through the list of the bands sees.
-/

namespace Nolrem.Cd

/-! ## Going through a list -/

/-- What is left: the spans of the band that has been entered, and the bands behind it. -/
structure Rest where
  spans : List (Int × Int)
  bands : List Band

/-- The next rectangle if it is asked for, else the next band. -/
def Rest.resume (rects : Bool) (rest : Rest) : Stop × Rest :=
  match rects, rest with
  | true, ⟨s :: spans, l⟩ => (.rect s.1 s.2, ⟨spans, l⟩)
  | _, ⟨_, b :: l⟩ => (.band b.y0 b.y1, ⟨b.spans, l⟩)
  | _, ⟨_, []⟩ => (.ended, ⟨[], []⟩)

section Follows

variable {dc : Option ScaleDc} {data : Option RegionData} {c : Context} {rest : Rest}

/-- The context stands where `rest` is left. -/
inductive Follows (dc : Option ScaleDc) : Option RegionData → Context → Rest → Prop where
  | nothing {c : Context} : Follows dc none c ⟨[], []⟩
  | before {d : RegionData} {c : Context} {l : List Band} (h : Before d c l) :
    Follows dc (some d) c ⟨[], l.map (place dc d)⟩
  | within {d : RegionData} {c : Context} {b : Band} {spans : List (Int × Int)} {l : List Band}
    (h : InBand d dc c b spans l) :
    Follows dc (some d) c ⟨spans.map (placeSpan dc d), l.map (place dc d)⟩
  | done {data : Option RegionData} {c : Context} (h : c.done = true) : Follows dc data c ⟨[], []⟩

theorem resume_of_done (h : c.done = true) (rects : Bool) :
    c.resume dc data rects = (.ended, c) := by
  unfold Context.resume
  rw [if_pos h]

/-- One call. -/
theorem Follows.resume (h : Follows dc data c rest) (rects : Bool) :
    (c.resume dc data rects).1 = (rest.resume rects).1 ∧
      Follows dc data (c.resume dc data rects).2 (rest.resume rects).2 := by
  cases h with
  | done h =>
    rw [resume_of_done h]
    cases rects <;> exact ⟨rfl, .done h⟩
  | nothing =>
    by_cases hdone : c.done = true
    · rw [resume_of_done hdone]
      cases rects <;> exact ⟨rfl, .nothing⟩
    · unfold Context.resume
      rw [if_neg hdone]
      cases rects <;> exact ⟨rfl, .nothing⟩
  | @before d _ l h =>
    cases l with
    | nil =>
      obtain ⟨c', hc, hd, -⟩ := resume_ended dc rects (Or.inl h)
      rw [hc]
      cases rects <;> exact ⟨rfl, .done hd⟩
    | cons b l =>
      obtain ⟨c', hc, hw⟩ := resume_band dc rects (Or.inl h)
      rw [hc]
      cases rects <;> exact ⟨rfl, .within hw⟩
  | @within d _ b spans l h =>
    -- a span that is left is stopped at only if it is asked for
    by_cases hrects : rects = true → spans = []
    · cases l with
      | nil =>
        obtain ⟨c', hc, hd, -⟩ := resume_ended dc rects (Or.inr ⟨b, spans, h, hrects⟩)
        rw [hc]
        cases rects with
        | false => exact ⟨rfl, .done hd⟩
        | true =>
          rw [hrects rfl]
          exact ⟨rfl, .done hd⟩
      | cons b' l =>
        obtain ⟨c', hc, hw⟩ := resume_band dc rects (Or.inr ⟨b, spans, h, hrects⟩)
        rw [hc]
        cases rects with
        | false => exact ⟨rfl, .within hw⟩
        | true =>
          rw [hrects rfl]
          exact ⟨rfl, .within hw⟩
    · obtain ⟨rfl, hspans⟩ := Classical.not_imp.mp hrects
      obtain ⟨s, spans, rfl⟩ := List.exists_cons_of_ne_nil hspans
      obtain ⟨c', hc, hw⟩ := resume_rect h
      rw [hc]
      exact ⟨rfl, .within hw⟩

end Follows

end Nolrem.Cd
