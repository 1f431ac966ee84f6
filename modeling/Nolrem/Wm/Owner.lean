import Nolrem.Wm.Window

/-!
# Which window has a pixel

Where one pixel is looked at, a window either contains it or not. `owner` is the window that a walk
from the front finds for the pixel, and `reach` says whether the walk comes to the children of a
window. Both see the windows only through `h`.
-/

namespace Nolrem.Wm

namespace Siblings

variable {h h' : Nat → Bool} {list kids : Siblings} {parent target u : Nat}

/-- The window that has the pixel: the deepest one below the first that contains it. -/
def owner (h : Nat → Bool) : Siblings → Option Nat
  | null => none
  | win addr firstChild nextSibling =>
    if h addr then some ((owner h firstChild).getD addr) else owner h nextSibling

theorem owner_mem (hu : list.owner h = some u) : u ∈ list.addrs := by
  induction list generalizing u with
  | null => simp [owner] at hu
  | win addr firstChild nextSibling ih ih' =>
    rw [owner] at hu
    split at hu
    · cases hf : firstChild.owner h with
      | none => simp [hf] at hu; simp [addrs, hu]
      | some v =>
        simp only [hf, Option.getD_some, Option.some.injEq] at hu
        exact List.mem_cons_of_mem _ (List.mem_append_left _ (hu ▸ ih hf))
    · exact List.mem_cons_of_mem _ (List.mem_append_right _ (ih' hu))

theorem owner_congr (hh : ∀ x ∈ list.addrs, h' x = h x) : list.owner h' = list.owner h := by
  induction list with
  | null => rfl
  | win addr firstChild nextSibling ih ih' =>
    have hf := ih fun x hx => hh x (List.mem_cons_of_mem _ (List.mem_append_left _ hx))
    have hn := ih' fun x hx => hh x (List.mem_cons_of_mem _ (List.mem_append_right _ hx))
    rw [owner, owner, hh addr List.mem_cons_self, hf, hn]

theorem owner_eq_none_iff : list.owner h = none ↔ ∀ x ∈ list.here, h x = false := by
  induction list with
  | null => simp [owner, here]
  | win addr firstChild nextSibling ih ih' =>
    rw [owner]
    cases ha : h addr <;> simp [here, ha, ih']

/-! ## The children of one window -/

/-- The walk comes to the children of `parent`. -/
def reach (h : Nat → Bool) (parent : Nat) : Siblings → Bool
  | null => false
  | win addr firstChild nextSibling =>
    if addr = parent then h addr
    else if parent ∈ firstChild.addrs then h addr && reach h parent firstChild
    else !h addr && reach h parent nextSibling

theorem kidsOf_subset {x : Nat} (hx : x ∈ (list.kidsOf parent).addrs) : x ∈ list.addrs := by
  induction list with
  | null => simp [kidsOf, addrs] at hx
  | win addr firstChild nextSibling ih ih' =>
    rw [kidsOf] at hx
    simp only [addrs, List.mem_cons, List.mem_append]
    split at hx
    · exact Or.inr (Or.inl hx)
    · split at hx
      · exact Or.inr (Or.inl (ih hx))
      · exact Or.inr (Or.inr (ih' hx))

/-- What `list.addrs.Nodup` says of the first window of a list. -/
theorem nodup_win {addr : Nat} {firstChild nextSibling : Siblings}
    (hd : (win addr firstChild nextSibling).addrs.Nodup) :
    addr ∉ firstChild.addrs ∧ addr ∉ nextSibling.addrs ∧ firstChild.addrs.Nodup ∧
      nextSibling.addrs.Nodup ∧ ∀ x ∈ firstChild.addrs, x ∉ nextSibling.addrs := by
  obtain ⟨hn, hd⟩ := List.nodup_cons.mp hd
  obtain ⟨hf, hs, hx⟩ := List.nodup_append.mp hd
  rw [List.mem_append, not_or] at hn
  exact ⟨hn.1, hn.2, hf, hs, fun x h1 h2 => hx x h1 x h2 rfl⟩

/-- Once the walk comes to the children of `parent`, it stays there. -/
theorem owner_mapKids_of_reach (f : Siblings → Siblings) (hr : list.reach h parent = true) :
    (list.mapKids parent f).owner h = some (((f (list.kidsOf parent)).owner h).getD parent) := by
  induction list with
  | null => simp [reach] at hr
  | win addr firstChild nextSibling ih ih' =>
    rw [reach] at hr
    rw [mapKids, kidsOf]
    split at hr
    next hp =>
      rw [if_pos hp, if_pos hp, owner, if_pos hr, hp]
    next hp =>
      rw [if_neg hp, if_neg hp]
      split at hr
      next hm =>
        rw [Bool.and_eq_true] at hr
        rw [if_pos hm, if_pos hm, owner, if_pos hr.1, ih hr.2]
        rfl
      next hm =>
        rw [Bool.and_eq_true, Bool.not_eq_true'] at hr
        rw [if_neg hm, if_neg hm, owner, if_neg (by simp [hr.1]), ih' hr.2]

theorem mapKids_id : list.mapKids parent id = list := by
  induction list with
  | null => rfl
  | win addr firstChild nextSibling ih ih' => simp [mapKids, ih, ih']

theorem owner_of_reach (hr : list.reach h parent = true) :
    list.owner h = some (((list.kidsOf parent).owner h).getD parent) := by
  have ho := owner_mapKids_of_reach id hr
  rwa [mapKids_id] at ho

/-- Where the walk does not come to them, the children of `parent` make no difference. -/
theorem owner_mapKids_of_not_reach (f : Siblings → Siblings) (hd : list.addrs.Nodup)
    (hp : parent ∈ list.addrs) (hr : list.reach h parent = false)
    (hh : ∀ x ∈ list.addrs, x ∉ (list.kidsOf parent).addrs → h' x = h x) :
    (list.mapKids parent f).owner h' = list.owner h := by
  induction list with
  | null => rfl
  | win addr firstChild nextSibling ih ih' =>
    obtain ⟨hf, hn, hdf, hdn, hx⟩ := nodup_win hd
    rw [reach] at hr
    rw [kidsOf] at hh
    rw [mapKids]
    simp only [addrs, List.mem_cons, List.mem_append] at hp hh
    split at hr
    next he =>
      rw [if_pos he]
      rw [if_pos he] at hh
      have ha : h' addr = h addr := hh addr (Or.inl rfl) hf
      have hs : nextSibling.owner h' = nextSibling.owner h :=
        owner_congr fun x hm => hh x (Or.inr (Or.inr hm)) fun h1 => hx x h1 hm
      simp [owner, ha, hr, hs]
    next he =>
      rw [if_neg he]
      rw [if_neg he] at hh
      split at hr
      next hm =>
        rw [if_pos hm]
        rw [if_pos hm] at hh
        have ha : h' addr = h addr := hh addr (Or.inl rfl) fun h1 => hf (kidsOf_subset h1)
        have hs : nextSibling.owner h' = nextSibling.owner h :=
          owner_congr fun x hm => hh x (Or.inr (Or.inr hm)) fun h1 => hx x (kidsOf_subset h1) hm
        rw [owner, owner, ha, hs]
        cases hb : h addr with
        | false => rfl
        | true =>
          rw [hb, Bool.true_and] at hr
          have hi := ih hdf hm hr fun x h1 h2 => hh x (Or.inr (Or.inl h1)) h2
          rw [hi]
      next hm =>
        rw [if_neg hm]
        rw [if_neg hm] at hh
        have hm' : parent ∈ nextSibling.addrs := (hp.resolve_left (Ne.symm he)).resolve_left hm
        have ha : h' addr = h addr := hh addr (Or.inl rfl) fun h1 => hn (kidsOf_subset h1)
        have hs : firstChild.owner h' = firstChild.owner h :=
          owner_congr fun x h1 => hh x (Or.inr (Or.inl h1)) fun h2 => hx x h1 (kidsOf_subset h2)
        rw [owner, owner, ha, hs]
        cases hb : h addr with
        | true => rfl
        | false =>
          rw [hb, Bool.not_false, Bool.true_and] at hr
          have hi := ih' hdn hm' hr fun x h1 h2 => hh x (Or.inr (Or.inr h1)) h2
          simpa using hi

/-- Only the windows from the root to `parent` and those in front decide about `reach`. -/
theorem reach_congr (hd : list.addrs.Nodup)
    (hh : ∀ x ∈ list.addrs, x ∉ (list.kidsOf parent).addrs → h' x = h x) :
    list.reach h' parent = list.reach h parent := by
  induction list with
  | null => rfl
  | win addr firstChild nextSibling ih ih' =>
    obtain ⟨hf, hn, hdf, hdn, hx⟩ := nodup_win hd
    rw [kidsOf] at hh
    rw [reach, reach]
    simp only [addrs, List.mem_cons, List.mem_append] at hh
    by_cases he : addr = parent
    · rw [if_pos he] at hh
      rw [if_pos he, if_pos he, hh addr (Or.inl rfl) hf]
    · rw [if_neg he] at hh
      rw [if_neg he, if_neg he]
      by_cases hm : parent ∈ firstChild.addrs
      · rw [if_pos hm] at hh
        rw [if_pos hm, if_pos hm, hh addr (Or.inl rfl) fun h1 => hf (kidsOf_subset h1)]
        rw [ih hdf fun x h1 h2 => hh x (Or.inr (Or.inl h1)) h2]
      · rw [if_neg hm] at hh
        rw [if_neg hm, if_neg hm, hh addr (Or.inl rfl) fun h1 => hn (kidsOf_subset h1)]
        rw [ih' hdn fun x h1 h2 => hh x (Or.inr (Or.inr h1)) h2]

/-- Where the walk does not come to the children of `parent`, it finds none of them, nor it. -/
theorem not_below_of_not_reach (hd : list.addrs.Nodup) (hp : parent ∈ list.addrs)
    (hr : list.reach h parent = false) (hu : list.owner h = some u) :
    u ≠ parent ∧ u ∉ (list.kidsOf parent).addrs := by
  induction list generalizing u with
  | null => simp [owner] at hu
  | win addr firstChild nextSibling ih ih' =>
    obtain ⟨hf, hn, hdf, hdn, hx⟩ := nodup_win hd
    rw [reach] at hr
    rw [owner] at hu
    rw [kidsOf]
    simp only [addrs, List.mem_cons, List.mem_append] at hp
    split at hr
    next he =>
      rw [if_neg (by simp [hr])] at hu
      have hm := owner_mem hu
      rw [if_pos he]
      exact ⟨fun e => hn (he.trans e.symm ▸ hm), fun h1 => hx u h1 hm⟩
    next he =>
      rw [if_neg he]
      split at hr
      next hm =>
        rw [if_pos hm]
        split at hu
        next hb =>
          rw [hb, Bool.true_and] at hr
          cases ho : firstChild.owner h with
          | none =>
            simp only [ho, Option.getD_none, Option.some.injEq] at hu
            subst hu
            exact ⟨he, fun h1 => hf (kidsOf_subset h1)⟩
          | some v =>
            simp only [ho, Option.getD_some, Option.some.injEq] at hu
            subst hu
            exact ih hdf hm hr ho
        next hb =>
          have hun := owner_mem hu
          exact ⟨fun e => hx parent hm (e ▸ hun), fun h1 => hx u (kidsOf_subset h1) hun⟩
      next hm =>
        rw [if_neg hm]
        have hm' : parent ∈ nextSibling.addrs := (hp.resolve_left (Ne.symm he)).resolve_left hm
        split at hu
        next hb =>
          cases ho : firstChild.owner h with
          | none =>
            simp only [ho, Option.getD_none, Option.some.injEq] at hu
            subst hu
            exact ⟨he, fun h1 => hn (kidsOf_subset h1)⟩
          | some v =>
            simp only [ho, Option.getD_some, Option.some.injEq] at hu
            subst hu
            have hv := owner_mem ho
            exact ⟨fun e => hx v hv (e ▸ hm'), fun h1 => hx v hv (kidsOf_subset h1)⟩
        next hb =>
          rw [show h addr = false by simpa using hb, Bool.not_false, Bool.true_and] at hr
          exact ih' hdn hm' hr hu

theorem hit_of_reach (hr : list.reach h parent = true) : h parent = true := by
  induction list with
  | null => simp [reach] at hr
  | win addr firstChild nextSibling ih ih' =>
    rw [reach] at hr
    split at hr
    next he => exact he ▸ hr
    next he =>
      split at hr
      · exact ih (Bool.and_eq_true_iff.mp hr).2
      · exact ih' (Bool.and_eq_true_iff.mp hr).2

theorem kidsOf_nodup (hd : list.addrs.Nodup) (hp : parent ∈ list.addrs) :
    (parent :: (list.kidsOf parent).addrs).Nodup := by
  induction list with
  | null => simp [addrs] at hp
  | win addr firstChild nextSibling ih ih' =>
    obtain ⟨hf, hn, hdf, hdn, hx⟩ := nodup_win hd
    rw [kidsOf]
    split
    next he => exact List.nodup_cons.mpr ⟨he ▸ hf, hdf⟩
    next he =>
      split
      next hm => exact ih hdf hm
      next hm =>
        simp only [addrs, List.mem_cons, List.mem_append] at hp
        exact ih' hdn ((hp.resolve_left (Ne.symm he)).resolve_left hm)

/-! ## One window among its siblings -/

/-- The list is `bigBros`, then `target` with its children, and then `nextSibling`. -/
def Splits (target : Nat) (firstChild nextSibling : Siblings) : List Nat → Siblings → Prop
  | [], list => list = win target firstChild nextSibling
  | _ :: _, null => False
  | bro :: bros, win addr _ next => addr = bro ∧ Splits target firstChild nextSibling bros next

variable {firstChild nextSibling : Siblings} {bigBros : List Nat}

theorem Splits.suffix (hs : Splits target firstChild nextSibling bigBros kids) :
    (win target firstChild nextSibling).addrs <:+ kids.addrs := by
  induction bigBros generalizing kids with
  | nil =>
    rw [show kids = _ from hs]
  | cons bro bros ih =>
    cases kids with
    | null => exact hs.elim
    | win addr below next =>
      refine (ih hs.2).trans ?_
      exact (List.suffix_append _ _).trans (List.suffix_cons _ _)

theorem Splits.bro_not_mem (hs : Splits target firstChild nextSibling bigBros kids)
    (hd : kids.addrs.Nodup) {bro : Nat} (hb : bro ∈ bigBros) :
    bro ∉ (win target firstChild nextSibling).addrs := by
  induction bigBros generalizing kids with
  | nil => exact absurd hb List.not_mem_nil
  | cons b bros ih =>
    cases kids with
    | null => exact hs.elim
    | win addr below next =>
      obtain ⟨-, hn, -, hdn, -⟩ := nodup_win hd
      rcases List.mem_cons.mp hb with hb | hb
      · intro hm
        exact hn (hs.1.trans hb.symm ▸ hs.2.suffix.subset hm)
      · exact ih hs.2 hdn hb

theorem Splits.mem_bro (hs : Splits target firstChild nextSibling bigBros kids) {bro : Nat}
    (hb : bro ∈ bigBros) : bro ∈ kids.addrs := by
  induction bigBros generalizing kids with
  | nil => exact absurd hb List.not_mem_nil
  | cons b bros ih =>
    cases kids with
    | null => exact hs.elim
    | win addr below next =>
      rcases List.mem_cons.mp hb with hb | hb
      · rw [hb, ← hs.1]
        exact List.mem_cons_self
      · exact List.mem_cons_of_mem _ (List.mem_append_right _ (ih hs.2 hb))

/-- With no window in front that has the pixel, the walk comes to `target`. -/
theorem Splits.owner_clear (hs : Splits target firstChild nextSibling bigBros kids)
    (hb : ∀ bro ∈ bigBros, h bro = false) :
    kids.owner h = (win target firstChild nextSibling).owner h := by
  induction bigBros generalizing kids with
  | nil => rw [show kids = _ from hs]
  | cons bro bros ih =>
    cases kids with
    | null => exact hs.elim
    | win addr below next =>
      have hf : h addr = false := hs.1 ▸ hb bro List.mem_cons_self
      rw [owner, if_neg (by simp [hf])]
      exact ih hs.2 fun b hm => hb b (List.mem_cons_of_mem _ hm)

/-- A window in front that has the pixel keeps it from `target` and those behind. -/
theorem Splits.owner_blocked (hs : Splits target firstChild nextSibling bigBros kids)
    (hd : kids.addrs.Nodup) (hb : ∃ bro ∈ bigBros, h bro = true) :
    ∃ u, kids.owner h = some u ∧ u ∉ (win target firstChild nextSibling).addrs ∧
      ∀ h', (∀ x ∈ kids.addrs, x ∉ target :: firstChild.addrs → h' x = h x) →
        kids.owner h' = some u := by
  induction bigBros generalizing kids with
  | nil => simp at hb
  | cons bro bros ih =>
    cases kids with
    | null => exact hs.elim
    | win addr below next =>
      obtain ⟨hf, hn, hdf, hdn, hx⟩ := nodup_win hd
      have hsub := hs.2.suffix.subset
      -- `target` and what is below it are behind this window
      have hout (x : Nat) (hm : x ∉ next.addrs) : x ∉ target :: firstChild.addrs := by
        intro h1
        apply hm
        apply hsub
        rcases List.mem_cons.mp h1 with h1 | h1
        · rw [h1]
          exact List.mem_cons_self
        · exact List.mem_cons_of_mem _ (List.mem_append_left _ h1)
      by_cases ha : h addr = true
      · refine ⟨(below.owner h).getD addr, by rw [owner, if_pos ha], ?_, ?_⟩
        · intro hm
          have hm' := hsub hm
          cases ho : below.owner h with
          | none =>
            rw [ho] at hm'
            exact hn hm'
          | some v =>
            rw [ho] at hm'
            exact hx v (owner_mem ho) hm'
        · intro h' hh
          have ha' : h' addr = h addr := hh addr List.mem_cons_self (hout addr hn)
          have hb' : below.owner h' = below.owner h := owner_congr fun x hm =>
            hh x (List.mem_cons_of_mem _ (List.mem_append_left _ hm)) (hout x (hx x hm))
          rw [owner, ha', if_pos ha, hb']
      · have hb' : ∃ b ∈ bros, h b = true := by
          obtain ⟨b, hm, ht⟩ := hb
          rcases List.mem_cons.mp hm with hm | hm
          · exact absurd (hs.1 ▸ hm ▸ ht) ha
          · exact ⟨b, hm, ht⟩
        obtain ⟨u, hu, hnu, hcong⟩ := ih hs.2 hdn hb'
        refine ⟨u, by rw [owner, if_neg ha, hu], hnu, ?_⟩
        intro h' hh
        have ha' : h' addr = h addr := hh addr List.mem_cons_self (hout addr hn)
        rw [owner, ha', if_neg ha]
        exact hcong h' fun x hm => hh x (List.mem_cons_of_mem _ (List.mem_append_right _ hm))

/-! ## Places -/

theorem place_isSome {parents bros : List Nat} (hm : target ∈ list.addrs) :
    ∃ place, list.place target parents bros = some place := by
  induction list generalizing parents bros with
  | null => simp [addrs] at hm
  | win addr firstChild nextSibling ih ih' =>
    rw [Siblings.place]
    split
    · exact ⟨_, rfl⟩
    next he =>
      split
      next place hp => exact ⟨place, rfl⟩
      next hp =>
        simp only [addrs, List.mem_cons, List.mem_append] at hm
        rcases hm with hm | hm | hm
        · exact absurd hm.symm he
        · obtain ⟨place, hp'⟩ := @ih (addr :: parents) [] hm
          simp [hp] at hp'
        · exact ih' hm

/-- A window is one of the list, or one of the children of the first of its `parents`. -/
theorem place_spec {parents bros : List Nat} {place : Place} (hd : list.addrs.Nodup)
    (hp : list.place target parents bros = some place) :
    (place.parents = parents ∧ ∃ bs, place.bigBros = bros ++ bs ∧
      Splits target place.firstChild place.nextSibling bs list) ∨
    ∃ parent rest, place.parents = parent :: rest ∧ parent ∈ list.addrs ∧
      Splits target place.firstChild place.nextSibling place.bigBros (list.kidsOf parent) := by
  induction list generalizing parents bros with
  | null => simp [Siblings.place] at hp
  | win addr firstChild nextSibling ih ih' =>
    obtain ⟨hf, hn, hdf, hdn, hx⟩ := nodup_win hd
    rw [Siblings.place] at hp
    split at hp
    next he =>
      cases hp
      exact Or.inl ⟨rfl, [], (List.append_nil _).symm, by rw [he]; rfl⟩
    next he =>
      split at hp
      next place' hs =>
        cases hp
        rcases ih hdf hs with ⟨hpar, bs, hb, hsp⟩ | ⟨parent, rest, hpar, hm, hsp⟩
        · refine Or.inr ⟨addr, parents, hpar, List.mem_cons_self, ?_⟩
          rw [kidsOf, if_pos rfl, hb]
          exact hsp
        · refine Or.inr ⟨parent, rest, hpar, ?_, ?_⟩
          · exact List.mem_cons_of_mem _ (List.mem_append_left _ hm)
          · have hne : addr ≠ parent := fun e => hf (e ▸ hm)
            rw [kidsOf, if_neg hne, if_pos hm]
            exact hsp
      next hs =>
        rcases ih' hdn hp with ⟨hpar, bs, hb, hsp⟩ | ⟨parent, rest, hpar, hm, hsp⟩
        · exact Or.inl ⟨hpar, addr :: bs, by rw [hb, List.append_assoc]; rfl, rfl, hsp⟩
        · refine Or.inr ⟨parent, rest, hpar, ?_, ?_⟩
          · exact List.mem_cons_of_mem _ (List.mem_append_right _ hm)
          · have hne : addr ≠ parent := fun e => hn (e ▸ hm)
            rw [kidsOf, if_neg hne, if_neg fun h1 => hx parent h1 hm]
            exact hsp

/-! ## The own area of a window -/

/-- `u` is in the list, and has the pixel with no elder sibling and no child of it. -/
def Own (h : Nat → Bool) (u : Nat) : List Nat → Siblings → Prop
  | _, null => False
  | bros, win addr firstChild nextSibling =>
    (u = addr ∧ h addr = true ∧ (∀ bro ∈ bros, h bro = false) ∧
        ∀ kid ∈ firstChild.here, h kid = false) ∨
      Own h u [] firstChild ∨ Own h u (bros ++ [addr]) nextSibling

theorem own_of_owner {bros : List Nat} (hb : ∀ bro ∈ bros, h bro = false)
    (hu : list.owner h = some u) : list.Own h u bros := by
  induction list generalizing bros u with
  | null => simp [owner] at hu
  | win addr firstChild nextSibling ih ih' =>
    rw [owner] at hu
    split at hu
    next ha =>
      cases ho : firstChild.owner h with
      | none =>
        simp only [ho, Option.getD_none, Option.some.injEq] at hu
        exact Or.inl ⟨hu.symm, ha, hb, owner_eq_none_iff.mp ho⟩
      | some v =>
        simp only [ho, Option.getD_some, Option.some.injEq] at hu
        subst hu
        exact Or.inr (Or.inl (ih (by simp) ho))
    next ha =>
      refine Or.inr (Or.inr (ih' ?_ hu))
      intro bro hm
      rcases List.mem_append.mp hm with hm | hm
      · exact hb bro hm
      · rw [List.mem_singleton.mp hm]
        simpa using ha

theorem Own.mem {bros : List Nat} (ho : list.Own h u bros) : u ∈ list.addrs := by
  induction list generalizing bros with
  | null => exact ho.elim
  | win addr firstChild nextSibling ih ih' =>
    simp only [addrs, List.mem_cons, List.mem_append]
    rcases ho with ⟨he, -⟩ | ho | ho
    · exact Or.inl he
    · exact Or.inr (Or.inl (ih ho))
    · exact Or.inr (Or.inr (ih' ho))

/-- No child of `u` has a pixel of the own area of `u`. -/
theorem Own.owner_kidsOf {bros : List Nat} (ho : list.Own h u bros) (hd : list.addrs.Nodup) :
    (list.kidsOf u).owner h = none := by
  induction list generalizing bros with
  | null => exact ho.elim
  | win addr firstChild nextSibling ih ih' =>
    obtain ⟨hf, hn, hdf, hdn, hx⟩ := nodup_win hd
    rw [kidsOf]
    rcases ho with ⟨he, -, -, hk⟩ | ho | ho
    · rw [if_pos he.symm]
      exact owner_eq_none_iff.mpr hk
    · have hne : addr ≠ u := fun e => hf (e ▸ ho.mem)
      rw [if_neg hne, if_pos ho.mem]
      exact ih ho hdf
    · have hne : addr ≠ u := fun e => hn (e ▸ ho.mem)
      rw [if_neg hne, if_neg fun h1 => hx u h1 ho.mem]
      exact ih' ho hdn

/-- The walk that comes to the own area of `u` ends there. -/
theorem Own.owner_eq {bros : List Nat} (ho : list.Own h u bros) (hd : list.addrs.Nodup)
    (hr : list.reach h u = true) : list.owner h = some u := by
  rw [owner_of_reach hr, ho.owner_kidsOf hd]
  rfl

/-! ## Relinking -/

end Siblings

end Nolrem.Wm
