import Nolrem.Wm.Recompute

/-!
# The window that shows a pixel

A pixel of the desktop should be in the `vis_rgn` of its owner, and of no other window. At one
pixel, what a call recomputes and what it exposes or covers keep this, where every window the call
shows there is in sight.
-/

namespace Nolrem.Wm

open Siblings

/-! ## One pixel -/

section Pixel

variable {h h' : Nat → Bool} {shows shows' : Nat → Prop} {list : Siblings} {target parent : Nat}
  {place : Place}

/-- The pixel is shown by its owner and by no other window. -/
def Parted (h : Nat → Bool) (shows : Nat → Prop) (list : Siblings) : Prop :=
  ∀ u ∈ list.addrs, (shows u ↔ list.owner h = some u)

/-- A walk over `list` comes to the window at `place`: all its ancestors have the pixel, and no
window in front of one of them or of it has. -/
def ComesTo (h : Nat → Bool) (list : Siblings) (place : Place) : Prop :=
  (∀ parent, place.parents.head? = some parent → list.reach h parent = true) ∧
    ∀ bro ∈ place.bigBros, h bro = false

/-- Each window from `target` down is in sight where its own area has the pixel. -/
def InSight (h : Nat → Bool) (list : Siblings) (target : Nat) (place : Place) : Prop :=
  ∀ u, (win target place.firstChild .null).Own h u place.bigBros →
    ComesTo h list place ∧ (win target place.firstChild .null).reach h u = true

/-- Below `target`, only the owner of the pixel has an own area in sight. -/
theorem own_iff_of_inSight {firstChild : Siblings} {bros : List Nat} {u : Nat}
    (hd : (win target firstChild .null).addrs.Nodup)
    (hr : (win target firstChild .null).Own h u bros →
      (win target firstChild .null).reach h u = true)
    (hb : ∀ bro ∈ bros, h bro = false) :
    (win target firstChild .null).Own h u bros ↔
      (win target firstChild .null).owner h = some u := by
  constructor
  · exact fun ho => ho.owner_eq hd (hr ho)
  · exact own_of_owner hb

theorem behind_congr (hh : ∀ x ∈ place.nextSibling.addrs, h' x = h x)
    (hp : ∀ parent, place.parents.head? = some parent → h' parent = h parent) :
    behind h' place = behind h place := by
  unfold behind
  rw [owner_congr hh]
  cases hq : place.parents.head? with
  | none => rfl
  | some parent => simp only [hp parent hq]

/-! ### A window that is not the root -/

theorem mem_addrs_of_below {firstChild nextSibling : Siblings} {x : Nat}
    (hx : x ∈ target :: firstChild.addrs) : x ∈ (win target firstChild nextSibling).addrs := by
  rcases List.mem_cons.mp hx with hx | hx
  · exact hx ▸ List.mem_cons_self
  · exact List.mem_cons_of_mem _ (List.mem_append_left _ hx)

/-- In the windows of `list`, `target` is a child of `parent`, at `place`. -/
structure ChildAt (list : Siblings) (parent target : Nat) (place : Place) : Prop where
  nodup : list.addrs.Nodup
  parent_eq : place.parents.head? = some parent
  parent_mem : parent ∈ list.addrs
  splits : Splits target place.firstChild place.nextSibling place.bigBros (list.kidsOf parent)

namespace ChildAt

variable (ha : ChildAt list parent target place)
include ha

theorem parent_not_mem : parent ∉ (list.kidsOf parent).addrs :=
  (List.nodup_cons.mp (kidsOf_nodup ha.nodup ha.parent_mem)).1

theorem kids_nodup : (list.kidsOf parent).addrs.Nodup :=
  (List.nodup_cons.mp (kidsOf_nodup ha.nodup ha.parent_mem)).2

theorem win_nodup : (win target place.firstChild place.nextSibling).addrs.Nodup :=
  ha.kids_nodup.sublist ha.splits.suffix.sublist

theorem mem_kids {x : Nat} (hx : x ∈ (win target place.firstChild place.nextSibling).addrs) :
    x ∈ (list.kidsOf parent).addrs :=
  ha.splits.suffix.subset hx

/-- The siblings and the parent are not among the windows from `target` down. -/
theorem beside {x : Nat}
    (hx : x ∈ place.nextSibling.addrs ∨ x ∈ place.bigBros ∨ place.parents.head? = some x) :
    x ∈ list.addrs ∧ x ∉ target :: place.firstChild.addrs := by
  obtain ⟨-, hn, -, -, hd⟩ := nodup_win ha.win_nodup
  rcases hx with hx | hx | hx
  · refine ⟨kidsOf_subset (ha.mem_kids ?_), ?_⟩
    · exact List.mem_cons_of_mem _ (List.mem_append_right _ hx)
    · intro hb
      rcases List.mem_cons.mp hb with hb | hb
      · exact hn (hb ▸ hx)
      · exact hd x hb hx
  · refine ⟨kidsOf_subset (ha.splits.mem_bro hx), ?_⟩
    exact fun hb => ha.splits.bro_not_mem ha.kids_nodup hx (mem_addrs_of_below hb)
  · rw [ha.parent_eq, Option.some.injEq] at hx
    subst hx
    refine ⟨ha.parent_mem, ?_⟩
    exact fun hb => ha.parent_not_mem (ha.mem_kids (mem_addrs_of_below hb))

theorem behind_beside {u : Nat} (hb : behind h place = some u) :
    u ∈ list.addrs ∧ u ∉ target :: place.firstChild.addrs := by
  rcases behind_mem hb with hu | hu
  · exact ha.beside (Or.inl hu)
  · exact ha.beside (Or.inr (Or.inr hu))

variable (hh : ∀ x ∈ list.addrs, x ∉ target :: place.firstChild.addrs → h' x = h x)
include hh

theorem behind_eq : behind h' place = behind h place := by
  apply behind_congr
  · intro x hx
    have hb := ha.beside (Or.inl hx)
    exact hh x hb.1 hb.2
  · intro q hq
    have hb := ha.beside (Or.inr (Or.inr hq))
    exact hh q hb.1 hb.2

theorem bros_iff : (∀ bro ∈ place.bigBros, h' bro = false) ↔
    ∀ bro ∈ place.bigBros, h bro = false := by
  refine forall₂_congr fun bro hb => ?_
  have hb := ha.beside (Or.inr (Or.inl hb))
  rw [hh bro hb.1 hb.2]

theorem reach_eq : list.reach h' parent = list.reach h parent :=
  reach_congr ha.nodup fun x hx hk =>
    hh x hx fun hb => hk (ha.mem_kids (mem_addrs_of_below hb))

theorem comesTo_iff : ComesTo h' list place ↔ ComesTo h list place := by
  unfold ComesTo
  simp only [ha.bros_iff hh, ha.parent_eq, Option.some.injEq, forall_eq', ha.reach_eq hh]

omit hh

/-- What a walk finds that comes to the window at `place`. -/
theorem owner_of_comesTo (hc : ComesTo h list place) :
    list.owner h =
      if h target then (win target place.firstChild .null).owner h else behind h place := by
  have hr := hc.1 parent ha.parent_eq
  rw [owner_of_reach hr, ha.splits.owner_clear hc.2]
  cases ht : h target with
  | true => simp [owner, ht]
  | false =>
    unfold behind
    cases ho : place.nextSibling.owner h <;>
      simp [owner, ht, ho, ha.parent_eq, hit_of_reach hr]

include hh

/-- A walk that does not come to the window at `place` finds none from there on. -/
theorem owner_of_not_comesTo (hc : ¬ComesTo h list place) :
    list.owner h' = list.owner h ∧ ∀ v, list.owner h = some v →
      v ∉ (win target place.firstChild place.nextSibling).addrs ∧ v ≠ parent := by
  have hreach := ha.reach_eq hh
  cases hr : list.reach h parent with
  | false =>
    constructor
    · have ho := owner_mapKids_of_not_reach id ha.nodup ha.parent_mem hr fun x hx hk =>
        hh x hx fun hb => hk (ha.mem_kids (mem_addrs_of_below hb))
      rwa [mapKids_id] at ho
    · intro v hv
      obtain ⟨hne, hn⟩ := not_below_of_not_reach ha.nodup ha.parent_mem hr hv
      exact ⟨fun h1 => hn (ha.mem_kids h1), hne⟩
  | true =>
    -- then a window in front has the pixel
    have hb : ∃ bro ∈ place.bigBros, h bro = true := by
      by_contra hno
      apply hc
      constructor
      · intro q hq
        rw [ha.parent_eq, Option.some.injEq] at hq
        rw [← hq, hr]
      · intro bro hm
        by_contra h1
        exact hno ⟨bro, hm, by simpa using h1⟩
    obtain ⟨v, hv, hnv, hcong⟩ := ha.splits.owner_blocked ha.kids_nodup hb
    have hv' := hcong h' fun x hx hn => hh x (kidsOf_subset hx) hn
    rw [hr] at hreach
    rw [owner_of_reach hreach, owner_of_reach hr, hv, hv']
    have hvp : v ≠ parent := by
      rintro rfl
      exact ha.parent_not_mem (owner_mem hv)
    refine ⟨rfl, ?_⟩
    intro w hw
    cases hw
    exact ⟨hnv, hvp⟩

end ChildAt

/-! ### A window that is moved -/

/-- The pixel leaves the moved window or joins it, and `u` loses it or gets it in a pass. -/
def Passes (h passed : Nat → Bool) (target : Nat) (place : Place) (u : Nat) : Prop :=
  h target ≠ passed target ∧
    (passed target = true ∨ ∀ bro ∈ place.bigBros, passed bro = false) ∧
    behind passed place = some u

/-- `target` moves: `h` is the pixel before, `passed` before its children move, and `h'` after. -/
structure MovedAt (h passed h' : Nat → Bool) (shows shows' : Nat → Prop) (list : Siblings)
    (target : Nat) (place : Place) : Prop where
  outside : ∀ x ∈ list.addrs, x ∉ target :: place.firstChild.addrs → h' x = h x
  passed_eq : ∀ x ∈ list.addrs, x ∉ place.firstChild.addrs → passed x = h' x
  own : ∀ u ∈ target :: place.firstChild.addrs,
    (shows' u ↔ (win target place.firstChild .null).Own h' u place.bigBros)
  others : ∀ u, u ∉ target :: place.firstChild.addrs →
    (shows' u ↔ (Passes h passed target place u ∧ h target = true) ∨
      (¬Passes h passed target place u ∧ shows u))
  inSight : InSight h' list target place
  uncovered : h target = true → h' target = false →
    (∀ bro ∈ place.bigBros, h' bro = false) → (∃ u, behind h' place = some u) →
    ComesTo h' list place

namespace MovedAt

variable {passed : Nat → Bool} {u : Nat}

/-- The passes see the windows beside as they are in the end. -/
theorem passes_iff (hmv : MovedAt h passed h' shows shows' list target place)
    (ha : ChildAt list parent target place) :
    Passes h passed target place u ↔ h target ≠ h' target ∧
      (h' target = true ∨ ∀ bro ∈ place.bigBros, h' bro = false) ∧ behind h' place = some u := by
  have hout (x : Nat) (hx : x ∈ list.addrs) (hn : x ∉ target :: place.firstChild.addrs) :
      passed x = h' x := hmv.passed_eq x hx fun hb => hn (List.mem_cons_of_mem _ hb)
  have htarget : passed target = h' target := by
    apply hmv.passed_eq
    · exact kidsOf_subset (ha.mem_kids List.mem_cons_self)
    · exact (nodup_win ha.win_nodup).1
  rw [Passes, htarget, ha.bros_iff hout, ha.behind_eq hout]

/-- Where the walk comes to the moved window, before and after. -/
theorem parted_of_comesTo (hmv : MovedAt h passed h' shows shows' list target place)
    (ha : ChildAt list parent target place) (hpart : Parted h shows list) (hu : u ∈ list.addrs)
    (hc : ComesTo h' list place) : shows' u ↔ list.owner h' = some u := by
  have hone : (win target place.firstChild .null).addrs = target :: place.firstChild.addrs := by
    simp [addrs]
  have hc0 := (ha.comesTo_iff hmv.outside).mp hc
  rw [ha.owner_of_comesTo hc]
  by_cases hS : u ∈ target :: place.firstChild.addrs
  · have hd : (win target place.firstChild .null).addrs.Nodup := by
      obtain ⟨hn, -, hdf, -⟩ := nodup_win ha.win_nodup
      rw [hone]
      exact List.nodup_cons.mpr ⟨hn, hdf⟩
    rw [hmv.own u hS, own_iff_of_inSight hd (fun ho => (hmv.inSight u ho).2) hc.2]
    cases ht : h' target with
    | true => simp
    | false =>
      have hno : behind h' place ≠ some u := fun hb => (ha.behind_beside hb).2 hS
      simp [owner, ht, hno]
  · rw [hmv.others u hS, hmv.passes_iff ha, hpart u hu, ha.owner_of_comesTo hc0,
      ← ha.behind_eq hmv.outside]
    have hno (g : Nat → Bool) : (win target place.firstChild .null).owner g ≠ some u :=
      fun ho => hS (hone ▸ owner_mem ho)
    have hclear := hc.2
    cases h target <;> cases h' target <;> simp [hno]
    tauto

/-- Where it does not, nothing changes. -/
theorem parted_of_not_comesTo (hmv : MovedAt h passed h' shows shows' list target place)
    (ha : ChildAt list parent target place) (hpart : Parted h shows list) (hu : u ∈ list.addrs)
    (hc : ¬ComesTo h' list place) : shows' u ↔ list.owner h' = some u := by
  obtain ⟨heq, hne⟩ := ha.owner_of_not_comesTo hmv.outside
    fun hc0 => hc ((ha.comesTo_iff hmv.outside).mpr hc0)
  rw [heq]
  by_cases hS : u ∈ target :: place.firstChild.addrs
  · rw [hmv.own u hS]
    constructor
    · exact fun ho => absurd (hmv.inSight u ho).1 hc
    · exact fun ho => absurd (mem_addrs_of_below hS) (hne u ho).1
  · rw [hmv.others u hS, hmv.passes_iff ha, hpart u hu]
    have hshift (hb : behind h' place = some u) : list.owner h ≠ some u := by
      intro ho
      obtain ⟨h1, h2⟩ := hne u ho
      rcases behind_mem hb with hb | hb
      · exact h1 (List.mem_cons_of_mem _ (List.mem_append_right _ hb))
      · rw [ha.parent_eq, Option.some.injEq] at hb
        exact h2 hb.symm
    constructor
    · rintro (⟨⟨hdiff, hclear, hb⟩, ht⟩ | ⟨-, ho⟩)
      · -- the move uncovers the pixel, which is out of sight
        have ht' : h' target = false := by
          rw [ht] at hdiff
          simpa using hdiff.symm
        exact absurd (hmv.uncovered ht ht' (hclear.resolve_left (by simp [ht'])) ⟨u, hb⟩) hc
      · exact ho
    · intro ho
      refine Or.inr ⟨?_, ho⟩
      rintro ⟨-, -, hb⟩
      exact hshift hb ho

theorem parted (hmv : MovedAt h passed h' shows shows' list target place)
    (ha : ChildAt list parent target place) (hpart : Parted h shows list) :
    Parted h' shows' list := by
  intro u hu
  by_cases hc : ComesTo h' list place
  · exact hmv.parted_of_comesTo ha hpart hu hc
  · exact hmv.parted_of_not_comesTo ha hpart hu hc

end MovedAt

/-! ### A window that comes to the front -/

end Pixel

end Nolrem.Wm
