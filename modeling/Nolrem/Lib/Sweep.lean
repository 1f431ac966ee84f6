import Nolrem.Lib.FillRule

/-!
# Sweeping over two lists of points

A set on a line is given by the points, in order, at which it begins and ends. The points of a
boolean combination of two such sets are found in one pass over both lists.
-/

namespace Nolrem.Lib

variable {α : Type*}

/-! ## Points and spans -/

/-- Every second point begins a span, also where the next one is the same. -/
def pairs : List α → List (α × α)
  | a :: b :: l => (a, b) :: pairs l
  | _ => []

/-- Where the spans begin and end. -/
def points (spans : List (α × α)) : List α := spans.flatMap fun s => [s.1, s.2]

@[simp] theorem points_nil : points ([] : List (α × α)) = [] := rfl

@[simp] theorem points_cons (s : α × α) (spans : List (α × α)) :
    points (s :: spans) = s.1 :: s.2 :: points spans := rfl

theorem length_points (spans : List (α × α)) : (points spans).length = 2 * spans.length := by
  induction spans with
  | nil => rfl
  | cons s spans ih => simp only [points_cons, List.length_cons, ih]; omega

theorem pairs_points (spans : List (α × α)) : pairs (points spans) = spans := by
  induction spans with
  | nil => rfl
  | cons s spans ih => rw [points_cons, pairs, ih]

theorem points_pairs {l : List α} (heven : Even l.length) : points (pairs l) = l := by
  induction l using List.twoStepInduction with
  | nil => rfl
  | singleton a => simp at heven
  | cons_cons a b l ih _ =>
    rw [pairs, points_cons, ih (by simpa [Nat.even_add_one] using heven)]

theorem mem_points {spans : List (α × α)} {x : α} :
    x ∈ points spans ↔ ∃ s ∈ spans, x = s.1 ∨ x = s.2 := by
  simp [points]

section Order

variable [LinearOrder α]

theorem pairs_eq_evenOdd {l : List α} (h : l.Pairwise (· < ·)) : pairs l = evenOdd l := by
  induction l using List.twoStepInduction with
  | nil => rfl
  | singleton a => rfl
  | cons_cons a b l ih _ =>
    obtain ⟨ha, hl⟩ := List.pairwise_cons.mp h
    rw [pairs, evenOdd, if_neg (ha b List.mem_cons_self).ne, ih (List.pairwise_cons.mp hl).2]

/-- An odd number of the points satisfies `p`. -/
def oddOf (p : α → Bool) (l : List α) : Bool := l.countP p % 2 == 1

omit [LinearOrder α] in
@[simp] theorem oddOf_nil (p : α → Bool) : oddOf p [] = false := rfl

omit [LinearOrder α] in
theorem oddOf_cons (p : α → Bool) (x : α) (l : List α) :
    oddOf p (x :: l) = (oddOf p l ^^ p x) := by
  unfold oddOf
  rw [List.countP_cons]
  cases p x with
  | false => simp
  | true =>
    rcases Nat.mod_two_eq_zero_or_one (l.countP p) with h | h <;> simp [h, Nat.add_mod]

/-- The spans that begin and end at the points have the points that are reached oddly often. -/
theorem inSpans_pairs {l : List α} (h : l.Pairwise (· < ·)) (heven : Even l.length) {x : α} :
    InSpans (pairs l) x ↔ oddOf (· ≤ x) l = true := by
  rw [pairs_eq_evenOdd h, inSpans_evenOdd (h.imp le_of_lt) heven, Nat.odd_iff, oddOf, beq_iff_eq]

/-! ## The sweep -/

/-- The point `x` is written, last first, where the spans that are made begin or end. -/
def mark (active inSpan : Bool) (x : α) (out : List α) : List α :=
  if active && !inSpan then x :: out
  else if !active && inSpan then
    -- a span that would have no points is taken back
    if out.head? = some x then out.tail else x :: out
  else out

variable (f : Bool → Bool → Bool)

/--
One pass over the points of two lists. `activeA` and `activeB` tell on which side of the points
behind it the pass is, and `inSpan` whether a span has begun.
-/
def sweep : List α → List α → Bool → Bool → Bool → List α → List α
  | [], [], _, _, _, out => out.reverse
  | x :: a, [], activeA, activeB, inSpan, out =>
    sweep a [] (!activeA) activeB (f (!activeA) activeB) (mark (f (!activeA) activeB) inSpan x out)
  | [], y :: b, activeA, activeB, inSpan, out =>
    sweep [] b activeA (!activeB) (f activeA (!activeB)) (mark (f activeA (!activeB)) inSpan y out)
  | x :: a, y :: b, activeA, activeB, inSpan, out =>
    if x < y then
      sweep a (y :: b) (!activeA) activeB (f (!activeA) activeB)
        (mark (f (!activeA) activeB) inSpan x out)
    else if y < x then
      sweep (x :: a) b activeA (!activeB) (f activeA (!activeB))
        (mark (f activeA (!activeB)) inSpan y out)
    else
      sweep a b (!activeA) (!activeB) (f (!activeA) (!activeB))
        (mark (f (!activeA) (!activeB)) inSpan y out)
termination_by a b => a.length + b.length

theorem oddOf_mark (p : α → Bool) (active inSpan : Bool) (x : α) (out : List α) :
    oddOf p (mark active inSpan x out) = (oddOf p out ^^ ((active ^^ inSpan) && p x)) := by
  unfold mark
  cases active <;> cases inSpan
  · simp
  · simp only [Bool.not_false, Bool.and_self, Bool.false_eq_true, if_false, Bool.not_true,
      if_true, Bool.true_and, Bool.bne_true]
    split_ifs with hhead
    · obtain ⟨rest, rfl⟩ := List.head?_eq_some_iff.mp hhead
      simp [oddOf_cons]
    · simp [oddOf_cons]
  · simp [oddOf_cons]
  · simp

/--
A point is passed: `sa` and `sb` become `sa'` and `sb'`, and `a` and `b` are what is left of `l` and
`k`.
-/
theorem pass {p : α → Bool} {x : α} {l k a b out : List α} {sa sb sa' sb' inSpan : Bool}
    (hspan : inSpan = f sa sb)
    (hreached : p x = true →
      (sa' ^^ oddOf p a) = (sa ^^ oddOf p l) ∧ (sb' ^^ oddOf p b) = (sb ^^ oddOf p k))
    (hbefore : p x = false →
      (oddOf p a = false ∧ oddOf p b = false) ∧ oddOf p l = false ∧ oddOf p k = false) :
    (oddOf p (mark (f sa' sb') inSpan x out) ^^ (f sa' sb' ^^
        f (sa' ^^ oddOf p a) (sb' ^^ oddOf p b))) =
      (oddOf p out ^^ (inSpan ^^ f (sa ^^ oddOf p l) (sb ^^ oddOf p k))) := by
  rw [oddOf_mark, hspan]
  cases hp : p x with
  | false =>
    obtain ⟨⟨ha, hb⟩, hl, hk⟩ := hbefore hp
    rw [ha, hb, hl, hk]
    simp
  | true =>
    obtain ⟨ha, hb⟩ := hreached hp
    rw [ha, hb]
    cases f sa' sb' <;> cases f sa sb <;> cases oddOf p out <;> simp

variable {f}

omit [LinearOrder α] in
theorem oddOf_eq_false {p : α → Bool} {l : List α} (h : ∀ y ∈ l, p y = false) :
    oddOf p l = false := by
  rw [oddOf, List.countP_eq_zero.mpr fun y hy => by simp [h y hy]]
  rfl

/--
**The sweep.** Up to each bound, the points that are written are as many, up to an even number, as
the combination of the two sets has.
-/
theorem oddOf_sweep {p : α → Bool} (hp : ∀ x y, x ≤ y → p y = true → p x = true)
    {a b : List α} {sa sb inSpan : Bool} {out : List α} (ha : a.Pairwise (· ≤ ·))
    (hb : b.Pairwise (· ≤ ·)) (hspan : inSpan = f sa sb) :
    oddOf p (sweep f a b sa sb inSpan out) =
      (oddOf p out ^^ (inSpan ^^ f (sa ^^ oddOf p a) (sb ^^ oddOf p b))) := by
  have hbefore {x : α} {l : List α} (hx : p x = false) (hl : ∀ y ∈ l, x ≤ y) :
      oddOf p l = false :=
    oddOf_eq_false fun y hy => Bool.eq_false_iff.mpr fun h => by simp [hp x y (hl y hy) h] at hx
  have hcons {x : α} {l : List α} (hl : (x :: l).Pairwise (· ≤ ·)) : ∀ y ∈ x :: l, x ≤ y :=
    List.forall_mem_cons.mpr ⟨le_refl x, (List.pairwise_cons.mp hl).1⟩
  have hflip {s : Bool} {x : α} {l : List α} (hx : p x = true) :
      (!s ^^ oddOf p l) = (s ^^ oddOf p (x :: l)) := by
    rw [oddOf_cons, hx]
    cases s <;> cases oddOf p l <;> rfl
  fun_induction sweep f a b sa sb inSpan out with
  | case1 sa sb inSpan out =>
    subst hspan
    simp [oddOf, List.countP_reverse]
  | case2 x a sa sb inSpan out ih =>
    rw [ih (List.pairwise_cons.mp ha).2 hb rfl]
    refine pass f hspan (fun hx => ⟨hflip hx, rfl⟩) fun hx => ?_
    have hxa := hcons ha
    exact ⟨⟨hbefore hx fun y hy => hxa y (List.mem_cons_of_mem x hy), rfl⟩, hbefore hx hxa, rfl⟩
  | case3 y b sa sb inSpan out ih =>
    rw [ih ha (List.pairwise_cons.mp hb).2 rfl]
    refine pass f hspan (fun hy => ⟨rfl, hflip hy⟩) fun hy => ?_
    have hyb := hcons hb
    exact ⟨⟨rfl, hbefore hy fun z hz => hyb z (List.mem_cons_of_mem y hz)⟩, rfl, hbefore hy hyb⟩
  | case4 x a y b sa sb inSpan out hxy ih =>
    rw [ih (List.pairwise_cons.mp ha).2 hb rfl]
    refine pass f hspan (fun hx => ⟨hflip hx, rfl⟩) fun hx => ?_
    have hxa := hcons ha
    have hxb : oddOf p (y :: b) = false :=
      hbefore hx fun z hz => hxy.le.trans (hcons hb z hz)
    exact ⟨⟨hbefore hx fun z hz => hxa z (List.mem_cons_of_mem x hz), hxb⟩, hbefore hx hxa, hxb⟩
  | case5 x a y b sa sb inSpan out _ hyx ih =>
    rw [ih ha (List.pairwise_cons.mp hb).2 rfl]
    refine pass f hspan (fun hy => ⟨rfl, hflip hy⟩) fun hy => ?_
    have hyb := hcons hb
    have hya : oddOf p (x :: a) = false :=
      hbefore hy fun z hz => hyx.le.trans (hcons ha z hz)
    exact ⟨⟨hya, hbefore hy fun z hz => hyb z (List.mem_cons_of_mem y hz)⟩, hya, hbefore hy hyb⟩
  | case6 x a y b sa sb inSpan out hxy hyx ih =>
    obtain rfl : x = y := le_antisymm (not_lt.mp hyx) (not_lt.mp hxy)
    rw [ih (List.pairwise_cons.mp ha).2 (List.pairwise_cons.mp hb).2 rfl]
    refine pass f hspan (fun hx => ⟨hflip hx, hflip hx⟩) fun hx => ?_
    have hxa := hcons ha
    have hxb := hcons hb
    exact ⟨⟨hbefore hx fun z hz => hxa z (List.mem_cons_of_mem x hz),
      hbefore hx fun z hz => hxb z (List.mem_cons_of_mem x hz)⟩, hbefore hx hxa, hbefore hx hxb⟩

/-- A point behind all that are written is only added. -/
theorem mark_of_lt {active inSpan : Bool} {x : α} {out : List α} (hout : ∀ y ∈ out, y < x) :
    mark active inSpan x out = if active = inSpan then out else x :: out := by
  have hhead : out.head? ≠ some x := fun h =>
    lt_irrefl x (hout x (List.mem_of_mem_head? h))
  unfold mark
  rw [if_neg hhead]
  cases active <;> cases inSpan <;> rfl

/-- The points `res` are written in order; they are from `out` and from the points of `rest`. -/
structure Swept (out rest res : List α) : Prop where
  sorted : res.Pairwise (· < ·)
  mem : ∀ x ∈ res, x ∈ out ∨ x ∈ rest
  length : res.length ≤ out.length + rest.length

/-- What is written stays before what is left. -/
structure Behind (out rest : List α) : Prop where
  sorted : out.Pairwise (· > ·)
  lt : ∀ y ∈ out, ∀ x ∈ rest, y < x

theorem Behind.mark {active inSpan : Bool} {x : α} {out rest rest' : List α}
    (h : Behind out rest) (hx : x ∈ rest) (hsub : rest' ⊆ rest) (hlt : ∀ z ∈ rest', x < z) :
    Behind (mark active inSpan x out) rest' := by
  have hout : ∀ y ∈ out, y < x := fun y hy => h.lt y hy x hx
  have hrest : ∀ y ∈ out, ∀ z ∈ rest', y < z := fun y hy z hz => h.lt y hy z (hsub hz)
  rw [mark_of_lt hout]
  split_ifs
  · exact ⟨h.sorted, hrest⟩
  · exact ⟨List.pairwise_cons.mpr ⟨hout, h.sorted⟩, List.forall_mem_cons.mpr ⟨hlt, hrest⟩⟩

theorem Swept.pass {active inSpan : Bool} {x : α} {out rest rest' res : List α}
    (hres : Swept (mark active inSpan x out) rest' res) (h : Behind out rest) (hx : x ∈ rest)
    (hsub : rest' ⊆ rest) (hlen : rest'.length < rest.length) : Swept out rest res := by
  obtain ⟨hsorted, hmem, hlength⟩ := hres
  rw [mark_of_lt fun y hy => h.lt y hy x hx] at hmem hlength
  split_ifs at hmem hlength
  · exact ⟨hsorted, fun z hz => (hmem z hz).imp_right fun h => hsub h, by omega⟩
  · refine ⟨hsorted, fun z hz => ?_, by rw [List.length_cons] at hlength; omega⟩
    rcases hmem z hz with hz | hz
    · rcases List.mem_cons.mp hz with rfl | hz
      · exact Or.inr hx
      · exact Or.inl hz
    · exact Or.inr (hsub hz)

theorem sweep_swept {a b : List α} {sa sb inSpan : Bool} {out : List α} (ha : a.Pairwise (· < ·))
    (hb : b.Pairwise (· < ·)) (hout : Behind out (a ++ b)) :
    Swept out (a ++ b) (sweep f a b sa sb inSpan out) := by
  fun_induction sweep f a b sa sb inSpan out with
  | case1 sa sb inSpan out =>
    refine ⟨List.pairwise_reverse.mpr hout.sorted, fun x hx => Or.inl (List.mem_reverse.mp hx), ?_⟩
    rw [List.length_reverse]
    exact Nat.le_add_right _ _
  | case2 x a sa sb inSpan out ih =>
    obtain ⟨hxa, ha⟩ := List.pairwise_cons.mp ha
    rw [List.append_nil] at hout ih ⊢
    have hsub : a ⊆ x :: a := List.subset_cons_self x a
    exact (ih ha hb (hout.mark List.mem_cons_self hsub hxa)).pass hout List.mem_cons_self hsub
      (Nat.lt_succ_self _)
  | case3 y b sa sb inSpan out ih =>
    obtain ⟨hyb, hb⟩ := List.pairwise_cons.mp hb
    rw [List.nil_append] at hout ih ⊢
    have hsub : b ⊆ y :: b := List.subset_cons_self y b
    exact (ih ha hb (hout.mark List.mem_cons_self hsub hyb)).pass hout List.mem_cons_self hsub
      (Nat.lt_succ_self _)
  | case4 x a y b sa sb inSpan out hxy ih =>
    obtain ⟨hxa, ha⟩ := List.pairwise_cons.mp ha
    have hx : x ∈ x :: a ++ y :: b := List.mem_cons_self
    have hsub : a ++ y :: b ⊆ x :: a ++ y :: b := List.subset_cons_self _ _
    have hlt : ∀ z ∈ a ++ y :: b, x < z := by
      refine List.forall_mem_append.mpr ⟨hxa, List.forall_mem_cons.mpr ⟨hxy, fun z hz => ?_⟩⟩
      exact hxy.trans ((List.pairwise_cons.mp hb).1 z hz)
    exact (ih ha hb (hout.mark hx hsub hlt)).pass hout hx hsub (Nat.lt_succ_self _)
  | case5 x a y b sa sb inSpan out _ hyx ih =>
    obtain ⟨hyb, hb⟩ := List.pairwise_cons.mp hb
    have hy : y ∈ x :: a ++ y :: b := List.mem_append_right _ List.mem_cons_self
    have hsub : x :: a ++ b ⊆ x :: a ++ y :: b :=
      List.append_subset.mpr ⟨List.subset_append_left _ _,
        fun z hz => List.mem_append_right _ (List.mem_cons_of_mem y hz)⟩
    have hlt : ∀ z ∈ x :: a ++ b, y < z := by
      refine List.forall_mem_append.mpr ⟨List.forall_mem_cons.mpr ⟨hyx, fun z hz => ?_⟩, hyb⟩
      exact hyx.trans ((List.pairwise_cons.mp ha).1 z hz)
    refine (ih ha hb (hout.mark hy hsub hlt)).pass hout hy hsub ?_
    simp only [List.length_append, List.length_cons]
    omega
  | case6 x a y b sa sb inSpan out hxy hyx ih =>
    obtain rfl : x = y := le_antisymm (not_lt.mp hyx) (not_lt.mp hxy)
    obtain ⟨hxa, ha⟩ := List.pairwise_cons.mp ha
    obtain ⟨hxb, hb⟩ := List.pairwise_cons.mp hb
    have hx : x ∈ x :: a ++ x :: b := List.mem_cons_self
    have hsub : a ++ b ⊆ x :: a ++ x :: b :=
      List.append_subset.mpr ⟨fun z hz => List.mem_append_left _ (List.mem_cons_of_mem x hz),
        fun z hz => List.mem_append_right _ (List.mem_cons_of_mem x hz)⟩
    refine (ih ha hb (hout.mark hx hsub (List.forall_mem_append.mpr ⟨hxa, hxb⟩))).pass hout hx
      hsub ?_
    simp only [List.length_append, List.length_cons]
    omega

/-! ## The combination of two lists of spans -/

/-- Spans in order that have points and do not touch. -/
def Parted (spans : List (α × α)) : Prop := (points spans).Pairwise (· < ·)

theorem parted_cons {s : α × α} {spans : List (α × α)} :
    Parted (s :: spans) ↔ s.1 < s.2 ∧ (∀ x ∈ points spans, s.2 < x) ∧ Parted spans := by
  rw [Parted, points_cons, List.pairwise_cons, List.pairwise_cons, List.forall_mem_cons]
  refine ⟨fun h => ⟨h.1.1, h.2.1, h.2.2⟩, fun h => ⟨⟨h.1, fun x hx => ?_⟩, h.2.1, h.2.2⟩⟩
  exact h.1.trans (h.2.1 x hx)

theorem Parted.lt {spans : List (α × α)} (h : Parted spans) : ∀ s ∈ spans, s.1 < s.2 := by
  induction spans with
  | nil => exact nofun
  | cons s spans ih =>
    obtain ⟨hs, -, hrest⟩ := parted_cons.mp h
    exact List.forall_mem_cons.mpr ⟨hs, ih hrest⟩

/-- The spans of the combination. -/
def combine (f : Bool → Bool → Bool) (a b : List (α × α)) : List (α × α) :=
  pairs (sweep f (points a) (points b) false false false [])

omit [LinearOrder α] in
theorem oddOf_true_points (a : List (α × α)) : oddOf (fun _ => true) (points a) = false := by
  rw [oddOf, List.countP_true, length_points]
  simp

/-- A point is in the spans when an odd number of ends are reached. -/
theorem inSpans_iff {a : List (α × α)} (ha : Parted a) {x : α} :
    InSpans a x ↔ oddOf (· ≤ x) (points a) = true := by
  have heven : Even (points a).length := ⟨a.length, by rw [length_points, Nat.two_mul]⟩
  rw [← inSpans_pairs ha heven, pairs_points]

section Combine

variable {a b : List (α × α)} (hf : f false false = false) (ha : Parted a) (hb : Parted b)

include ha hb in
theorem swept_combine : Swept [] (points a ++ points b)
    (sweep f (points a) (points b) false false false []) :=
  sweep_swept ha hb ⟨List.Pairwise.nil, nofun⟩

include hf ha hb

theorem points_combine :
    points (combine f a b) = sweep f (points a) (points b) false false false [] := by
  refine points_pairs ?_
  have hodd : oddOf (fun _ => true) (sweep f (points a) (points b) false false false []) = _ :=
    oddOf_sweep (fun _ _ _ _ => rfl) (ha.imp le_of_lt) (hb.imp le_of_lt) hf.symm
  rw [oddOf_true_points, oddOf_true_points, oddOf_nil] at hodd
  simp only [Bool.xor_false, hf, oddOf, List.countP_true, beq_eq_false_iff_ne] at hodd
  rw [Nat.even_iff]
  omega

/-- The combination of spans that do not touch does not touch either. -/
theorem parted_combine : Parted (combine f a b) := by
  rw [Parted, points_combine hf ha hb]
  exact (swept_combine ha hb).sorted

/-- **Combination.** It has the points of the boolean combination. -/
theorem inSpans_combine {x : α} [Decidable (InSpans a x)] [Decidable (InSpans b x)] :
    InSpans (combine f a b) x ↔ f (decide (InSpans a x)) (decide (InSpans b x)) = true := by
  have hlower : ∀ y z : α, y ≤ z → decide (z ≤ x) = true → decide (y ≤ x) = true := by
    intro y z hyz hz
    exact decide_eq_true (hyz.trans (of_decide_eq_true hz))
  rw [inSpans_iff (parted_combine hf ha hb), points_combine hf ha hb,
    oddOf_sweep hlower (ha.imp le_of_lt) (hb.imp le_of_lt) hf.symm]
  simp only [oddOf_nil, Bool.false_xor, inSpans_iff ha, inSpans_iff hb, Bool.decide_eq_true]

/-- Its ends are ends of the two lists. -/
theorem mem_points_combine {x : α} (hx : x ∈ points (combine f a b)) :
    x ∈ points a ∨ x ∈ points b := by
  rw [points_combine hf ha hb] at hx
  exact ((swept_combine ha hb).mem x hx).elim (absurd · List.not_mem_nil) List.mem_append.mp

theorem length_combine_le : (combine f a b).length ≤ a.length + b.length := by
  have hlen := (swept_combine (f := f) ha hb).length
  rw [← points_combine hf ha hb, List.length_append, length_points, length_points, length_points,
    List.length_nil] at hlen
  omega

end Combine

/-! ## Merging -/

/-- Two lists are merged, and what is written is above `prev` and what has been written before. -/
def mergeAbove : List α → List α → α → List α
  | [], [], _ => []
  | x :: a, [], prev => if prev < x then x :: mergeAbove a [] x else mergeAbove a [] prev
  | [], y :: b, prev => if prev < y then y :: mergeAbove [] b y else mergeAbove [] b prev
  | x :: a, y :: b, prev =>
    if y < x then
      if prev < y then y :: mergeAbove (x :: a) b y else mergeAbove (x :: a) b prev
    else if prev < x then x :: mergeAbove a (y :: b) x else mergeAbove a (y :: b) prev
termination_by a b => a.length + b.length

/-- What is written is what is in one of the lists and above `prev`, in order. -/
structure Merged (a b : List α) (prev : α) (res : List α) : Prop where
  sorted : res.Pairwise (· < ·)
  mem : ∀ z, z ∈ res ↔ (z ∈ a ∨ z ∈ b) ∧ prev < z

/-- A smallest element of both lists is taken away. -/
theorem Merged.cons {a b a' b' : List α} {x prev : α}
    (hmem : ∀ z, (z ∈ a ∨ z ∈ b) ↔ z = x ∨ z ∈ a' ∨ z ∈ b')
    (hle : ∀ z, z ∈ a' ∨ z ∈ b' → x ≤ z) :
    (prev < x → Merged a' b' x (mergeAbove a' b' x) →
        Merged a b prev (x :: mergeAbove a' b' x)) ∧
      (¬ prev < x → Merged a' b' prev (mergeAbove a' b' prev) →
        Merged a b prev (mergeAbove a' b' prev)) := by
  refine ⟨fun hx h => ⟨?_, fun z => ?_⟩, fun hx h => ⟨h.sorted, fun z => ?_⟩⟩
  · exact List.pairwise_cons.mpr ⟨fun z hz => ((h.mem z).mp hz).2, h.sorted⟩
  · rw [List.mem_cons, h.mem, hmem]
    constructor
    · rintro (rfl | ⟨hz, hxz⟩)
      · exact ⟨Or.inl rfl, hx⟩
      · exact ⟨Or.inr hz, hx.trans hxz⟩
    · rintro ⟨rfl | hz, hprev⟩
      · exact Or.inl rfl
      · rcases (hle z hz).eq_or_lt with heq | hlt
        · exact Or.inl heq.symm
        · exact Or.inr ⟨hz, hlt⟩
  · rw [h.mem, hmem]
    refine ⟨fun hz => ⟨Or.inr hz.1, hz.2⟩, fun hz => ⟨hz.1.resolve_left ?_, hz.2⟩⟩
    rintro rfl
    exact hx hz.2

theorem mergeAbove_spec {a b : List α} (prev : α) (ha : a.Pairwise (· ≤ ·))
    (hb : b.Pairwise (· ≤ ·)) : Merged a b prev (mergeAbove a b prev) := by
  have hleft {x : α} {a b : List α} (z : α) :
      (z ∈ x :: a ∨ z ∈ b) ↔ z = x ∨ z ∈ a ∨ z ∈ b := by rw [List.mem_cons, or_assoc]
  have hright {y : α} {a b : List α} (z : α) :
      (z ∈ a ∨ z ∈ y :: b) ↔ z = y ∨ z ∈ a ∨ z ∈ b := by rw [List.mem_cons, or_left_comm]
  have hcons {x y : α} {l : List α} (hl : (y :: l).Pairwise (· ≤ ·)) (hxy : x ≤ y) :
      ∀ z ∈ y :: l, x ≤ z :=
    List.forall_mem_cons.mpr ⟨hxy, fun z hz => hxy.trans ((List.pairwise_cons.mp hl).1 z hz)⟩
  fun_induction mergeAbove a b prev with
  | case1 => exact ⟨List.Pairwise.nil, by simp⟩
  | case2 x a prev hx ih =>
    obtain ⟨hxa, ha⟩ := List.pairwise_cons.mp ha
    exact (Merged.cons hleft fun z hz => hxa z (hz.resolve_right List.not_mem_nil)).1 hx (ih ha hb)
  | case3 x a prev hx ih =>
    obtain ⟨hxa, ha⟩ := List.pairwise_cons.mp ha
    exact (Merged.cons hleft fun z hz => hxa z (hz.resolve_right List.not_mem_nil)).2 hx (ih ha hb)
  | case4 y b prev hy ih =>
    obtain ⟨hyb, hb⟩ := List.pairwise_cons.mp hb
    exact (Merged.cons hright fun z hz => hyb z (hz.resolve_left List.not_mem_nil)).1 hy (ih ha hb)
  | case5 y b prev hy ih =>
    obtain ⟨hyb, hb⟩ := List.pairwise_cons.mp hb
    exact (Merged.cons hright fun z hz => hyb z (hz.resolve_left List.not_mem_nil)).2 hy (ih ha hb)
  | case6 x a y b prev hyx hy ih =>
    obtain ⟨hyb, hb⟩ := List.pairwise_cons.mp hb
    exact (Merged.cons hright fun z hz => hz.elim (hcons ha hyx.le z) (hyb z)).1 hy (ih ha hb)
  | case7 x a y b prev hyx hy ih =>
    obtain ⟨hyb, hb⟩ := List.pairwise_cons.mp hb
    exact (Merged.cons hright fun z hz => hz.elim (hcons ha hyx.le z) (hyb z)).2 hy (ih ha hb)
  | case8 x a y b prev hyx hx ih =>
    obtain ⟨hxa, ha⟩ := List.pairwise_cons.mp ha
    exact (Merged.cons hleft fun z hz => hz.elim (hxa z) (hcons hb (not_lt.mp hyx) z)).1 hx
      (ih ha hb)
  | case9 x a y b prev hyx hx ih =>
    obtain ⟨hxa, ha⟩ := List.pairwise_cons.mp ha
    exact (Merged.cons hleft fun z hz => hz.elim (hxa z) (hcons hb (not_lt.mp hyx) z)).2 hx
      (ih ha hb)

end Order

end Nolrem.Lib
