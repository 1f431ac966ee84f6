import Mathlib.Data.List.Count
import Nolrem.Word
import Nolrem.Lib.Count
import Nolrem.Lib.Transition

/-!
# Wiring memory

`WireVirt` and `UnwireVirt` of `kernel/mem/vmm.c`, called by any number of threads while pages
are faulted in, discarded and released around them. What is done under one lock is one step;
`WireVirtPage` and `UnwireVirtPage` look at the page under the lock of the address space and
then take the lock of the frame. A failed assertion stops the system.
-/

namespace Nolrem.Vmm

open Nolrem.Lib

/-! ## The code -/

/-- What wiring looks at of a `struct virt_page`; `frame` means something when it is present. -/
structure WirePage where
  fixed : Bool
  present : Bool
  frame : Nat
deriving DecidableEq, Repr

/-- `first` -/
def firstPage (ptr : Nat) : Nat := ptr / 4096

/-- `last` -/
def lastPage (ptr bytes : Nat) : Nat := wsub (wadd ptr bytes) 1 / 4096

/-- Where a call is. -/
inductive WireCall where
  | idle
  /-- The loop of `WireVirt`, before `WireVirtPage` on page `pg`. -/
  | wiring (ptr bytes pg : Nat)
  /-- `WireVirtPage` has found page `pg` present in `frame`, and has no lock. -/
  | found (ptr bytes pg frame : Nat)
  /-- The loop that undoes the first pages, or the loop of `UnwireVirt`: `pg` to `stop - 1`. -/
  | unwiring (pg stop : Nat)
  /-- `UnwireVirtPage` has found page `pg` in `frame`, and has no lock. -/
  | unwire (pg stop frame : Nat)
deriving DecidableEq, Repr

structure WireState where
  /-- `GetVirtualPageFromVirt`, by the number of the page -/
  page : Nat → Option WirePage
  /-- `wired` of each frame -/
  wired : Nat → Nat
  call : Nat → WireCall
  /-- The `ptr` and `bytes` of the calls that returned 0 and were not undone yet. -/
  outstanding : List (Nat × Nat)

/-- The page has a frame that can be discarded. -/
def WirePage.Backed (vp : WirePage) (f : Nat) : Prop :=
  vp.fixed = false ∧ vp.present = true ∧ vp.frame = f

def WireState.goOn (st : WireState) (t : Nat) (c : WireCall) : WireState :=
  { st with call := Function.update st.call t c }

/-- A step of thread `t`; `asked` says what is wired. -/
inductive WireStep (asked : Nat → Nat → Prop) (st : WireState) (t : Nat) : WireState → Prop where
  | wireVirt (h : st.call t = .idle) (ptr bytes : Nat) (hasked : asked ptr bytes) :
      WireStep asked st t (st.goOn t (.wiring ptr bytes (firstPage ptr)))
  | wired {ptr bytes pg : Nat} (h : st.call t = .wiring ptr bytes pg)
      (hend : lastPage ptr bytes < pg) :
      WireStep asked st t { st.goOn t .idle with outstanding := (ptr, bytes) :: st.outstanding }
  /-- `EFAULT` -/
  | noPage {ptr bytes pg : Nat} (h : st.call t = .wiring ptr bytes pg)
      (hle : pg ≤ lastPage ptr bytes) (hpage : st.page pg = none) :
      WireStep asked st t (st.goOn t (.unwiring (firstPage ptr) pg))
  | wireFixed {ptr bytes pg : Nat} (h : st.call t = .wiring ptr bytes pg)
      (hle : pg ≤ lastPage ptr bytes) {vp : WirePage} (hpage : st.page pg = some vp)
      (hfixed : vp.fixed = true) (hpresent : vp.present = true) :
      WireStep asked st t (st.goOn t (.wiring ptr bytes (pg + 1)))
  | findFrame {ptr bytes pg : Nat} (h : st.call t = .wiring ptr bytes pg)
      (hle : pg ≤ lastPage ptr bytes) {vp : WirePage} {f : Nat} (hpage : st.page pg = some vp)
      (hf : vp.Backed f) : WireStep asked st t (st.goOn t (.found ptr bytes pg f))
  /-- The page was discarded, or moved, while the thread had no lock. -/
  | retry {ptr bytes pg f : Nat} (h : st.call t = .found ptr bytes pg f)
      (hgone : ¬ ∃ vp, st.page pg = some vp ∧ vp.Backed f) :
      WireStep asked st t (st.goOn t (.wiring ptr bytes pg))
  | wire {ptr bytes pg f : Nat} (h : st.call t = .found ptr bytes pg f) {vp : WirePage}
      (hpage : st.page pg = some vp) (hf : vp.Backed f) (hroom : st.wired f ≠ 0xFFFF) :
      WireStep asked st t { st.goOn t (.wiring ptr bytes (pg + 1)) with
        wired := Function.update st.wired f (st.wired f + 1) }
  | unwireVirt (h : st.call t = .idle) {ptr bytes : Nat} (hpair : (ptr, bytes) ∈ st.outstanding) :
      WireStep asked st t { st.goOn t (.unwiring (firstPage ptr) (lastPage ptr bytes + 1)) with
        outstanding := st.outstanding.erase (ptr, bytes) }
  | unwired {pg stop : Nat} (h : st.call t = .unwiring pg stop) (hend : stop ≤ pg) :
      WireStep asked st t (st.goOn t .idle)
  | unwireFixed {pg stop : Nat} (h : st.call t = .unwiring pg stop) (hlt : pg < stop)
      {vp : WirePage} (hpage : st.page pg = some vp) (hpresent : vp.present = true)
      (hfixed : vp.fixed = true) : WireStep asked st t (st.goOn t (.unwiring (pg + 1) stop))
  | findWired {pg stop : Nat} (h : st.call t = .unwiring pg stop) (hlt : pg < stop)
      {vp : WirePage} {f : Nat} (hpage : st.page pg = some vp) (hf : vp.Backed f) :
      WireStep asked st t (st.goOn t (.unwire pg stop f))
  | unwire {pg stop f : Nat} (h : st.call t = .unwire pg stop f) (hwired : 0 < st.wired f) :
      WireStep asked st t { st.goOn t (.unwiring (pg + 1) stop) with
        wired := Function.update st.wired f (st.wired f - 1) }

/-- How many wires there are on a page: of calls that have returned, and of calls on their way. -/
def WireCall.covers (p : Nat) : WireCall → Bool
  | .idle => false
  | .wiring ptr _ pg | .found ptr _ pg _ => firstPage ptr ≤ p && p < pg
  | .unwiring pg stop | .unwire pg stop _ => pg ≤ p && p < stop

/-- The pages of a call that returned 0. -/
def wiredBy (p : Nat) (r : Nat × Nat) : Bool := firstPage r.1 ≤ p && p < lastPage r.1 r.2 + 1

def holdsOf (call : Nat → WireCall) (outstanding : List (Nat × Nat)) (n p : Nat) : Nat :=
  Nat.count (fun t => (call t).covers p = true) n + outstanding.countP (wiredBy p)

def WireState.holds (st : WireState) (n p : Nat) : Nat := holdsOf st.call st.outstanding n p

/-- What else happens to the pages. `frame` of `AllocPhys` belongs to no page. -/
inductive PageStep (n : Nat) (st : WireState) : WireState → Prop where
  /-- `CreateVirtPage` -/
  | create {p : Nat} (hpage : st.page p = none) (fixed : Bool) (frame : Nat) :
      PageStep n st { st with
        page := Function.update st.page p (some { fixed, present := false, frame }) }
  /-- `HandleFixedFault` -/
  | faultFixed {p : Nat} {vp : WirePage} (hpage : st.page p = some vp) (hfixed : vp.fixed = true) :
      PageStep n st { st with
        page := Function.update st.page p (some { vp with present := true }) }
  /-- `HandlePageFault` with a new frame -/
  | fault {p : Nat} {vp : WirePage} (hpage : st.page p = some vp) (hfixed : vp.fixed = false)
      (hgone : vp.present = false) {f : Nat}
      (hnew : ∀ q vq, st.page q = some vq → ¬ vq.Backed f) :
      PageStep n st { st with
        page := Function.update st.page p (some { vp with present := true, frame := f })
        wired := Function.update st.wired f 0 }
  /-- `DiscardPage`, after the last check of `FindDiscardPage` -/
  | discard {p : Nat} {vp : WirePage} {f : Nat} (hpage : st.page p = some vp) (hf : vp.Backed f)
      (hwired : st.wired f = 0) :
      PageStep n st { st with
        page := Function.update st.page p (some { vp with present := false })
        wired := Function.update st.wired f 0 }
  /-- `ReleaseVirtPage` of a page without a frame -/
  | releaseAbsent {p : Nat} {vp : WirePage} (hpage : st.page p = some vp)
      (hgone : vp.present = false) :
      PageStep n st { st with page := Function.update st.page p none }
  /-- `ReleaseVirtPage`, which asserts that the frame is not wired -/
  | release {p : Nat} {vp : WirePage} {f : Nat} (hpage : st.page p = some vp) (hf : vp.Backed f)
      (hwired : st.wired f = 0) :
      PageStep n st { st with
        page := Function.update st.page p none
        wired := Function.update st.wired f 0 }
  /-- `ReleaseVirtPage` of a fixed page that its owner no longer has wired -/
  | releaseFixed {p : Nat} {vp : WirePage} (hpage : st.page p = some vp) (hfixed : vp.fixed = true)
      (hfree : st.holds n p = 0) :
      PageStep n st { st with page := Function.update st.page p none }

/-! ## What wiring promises -/

/-- The page overlaps the bytes from `ptr` on. -/
def Overlaps (ptr bytes p : Nat) : Prop := p * 4096 < ptr + bytes ∧ ptr < p * 4096 + 4096

/-- What holds of every state, with `n` threads. -/
structure WireSound (n : Nat) (st : WireState) : Prop where
  /-- A frame is wired as often as there are wires on its page. -/
  counts : ∀ p vp f, st.page p = some vp → vp.Backed f → st.wired f = st.holds n p
  /-- A call that is about to return 0 has one wire on each page, all of which are resident. -/
  success : ∀ t < n, ∀ ptr bytes pg, st.call t = .wiring ptr bytes pg →
    lastPage ptr bytes < pg → ∀ p, Overlaps ptr bytes p →
      (st.call t).covers p = true ∧ ∃ vp, st.page p = some vp ∧ vp.present = true
  /-- A call that is about to return has no wire left when it failed, or undid its pair. -/
  undone : ∀ t < n, ∀ pg stop, st.call t = .unwiring pg stop → stop ≤ pg →
    ∀ p, (st.call t).covers p = false
  /-- When each call has returned and was undone, no frame of a page is wired. -/
  balanced : (∀ t < n, st.call t = .idle) → st.outstanding = [] →
    ∀ p vp f, st.page p = some vp → vp.Backed f → st.wired f = 0
  /-- A page on which there is a wire keeps its frame, whatever happens next. -/
  kept : ∀ p vp f, st.page p = some vp → vp.Backed f → 0 < st.wired f →
    ∀ st', PageStep n st st' → st'.page p = some vp

/-! ## The invariant -/

/-- How far a call has come. -/
def WireCall.Ranged (asked : Nat → Nat → Prop) : WireCall → Prop
  | .idle | .unwiring _ _ => True
  | .wiring ptr bytes pg => asked ptr bytes ∧ firstPage ptr ≤ pg ∧
    (pg ≤ lastPage ptr bytes + 1 ∨ pg = firstPage ptr)
  | .found ptr bytes pg _ => asked ptr bytes ∧ firstPage ptr ≤ pg ∧ pg ≤ lastPage ptr bytes
  | .unwire pg stop _ => pg < stop

structure WireInv (asked : Nat → Nat → Prop) (n : Nat) (st : WireState) : Prop where
  apart : ∀ p vp q vq f, st.page p = some vp → vp.Backed f → st.page q = some vq →
    vq.Backed f → p = q
  counts : ∀ p vp f, st.page p = some vp → vp.Backed f → st.wired f = st.holds n p
  absent : ∀ p, (∀ vp, st.page p = some vp → vp.present = false) → st.holds n p = 0
  ranged : ∀ t < n, (st.call t).Ranged asked
  /-- `UnwireVirtPage` comes back to the frame that it has found. -/
  frame : ∀ t < n, ∀ pg stop f, st.call t = .unwire pg stop f →
    ∃ vp, st.page pg = some vp ∧ vp.Backed f

section Steps

variable {asked : Nat → Nat → Prop} {n t : Nat} {st st' : WireState} {c c' : WireCall}

/-- The wires on a page when one call goes on. -/
theorem holdsOf_update (c' : WireCall) (ht : t < n) (hc : st.call t = c) (outstanding : List (Nat × Nat))
    (p : Nat) : holdsOf (Function.update st.call t c') outstanding n p + (c.covers p).toNat =
      holdsOf st.call outstanding n p + (c'.covers p).toNat := by
  have hchange := count_change (p := fun j => (st.call j).covers p = true)
    (q := fun j => (Function.update st.call t c' j).covers p = true) ht fun j hj => by
      rw [Function.update_of_ne hj]
  rw [hc, Function.update_self] at hchange
  unfold holdsOf
  cases hp : c.covers p <;> cases hp' : c'.covers p <;> rw [hp, hp'] at hchange <;>
    simp at hchange ⊢ <;> omega

theorem holds_pos (ht : t < n) (hc : st.call t = c) {p : Nat} (hp : c.covers p = true) :
    0 < st.holds n p := by
  have hpos : 0 < Nat.count (fun t => (st.call t).covers p = true) n :=
    count_pos_iff.mpr ⟨t, ht, by rw [hc]; exact hp⟩
  unfold WireState.holds holdsOf
  omega

/-- A step of a call: what is left to show is about the counts and the call. -/
theorem WireInv.callStep (h : WireInv asked n st) (hpage : st'.page = st.page)
    (hcall : st'.call = Function.update st.call t c') (hranged : c'.Ranged asked)
    (hframe : ∀ pg stop f, c' = .unwire pg stop f → ∃ vp, st.page pg = some vp ∧ vp.Backed f)
    (hcounts : ∀ p vp f, st.page p = some vp → vp.Backed f → st'.wired f = st'.holds n p)
    (habsent : ∀ p, (∀ vp, st.page p = some vp → vp.present = false) → st'.holds n p = 0) :
    WireInv asked n st' := by
  refine ⟨?_, ?_, ?_, fun u hu => ?_, fun u hu pg stop f huc => ?_⟩
  · rw [hpage]
    exact h.apart
  · rw [hpage]
    exact hcounts
  · rw [hpage]
    exact habsent
  · rw [hcall, Function.update_apply]
    split
    · exact hranged
    · exact h.ranged u hu
  · rw [hcall, Function.update_apply] at huc
    rw [hpage]
    split at huc
    · exact hframe pg stop f huc
    · exact h.frame u hu pg stop f huc

/-- A step of a call that changes no count. -/
theorem WireInv.quiet (h : WireInv asked n st) (hpage : st'.page = st.page)
    (hcall : st'.call = Function.update st.call t c') (hranged : c'.Ranged asked)
    (hframe : ∀ pg stop f, c' = .unwire pg stop f → ∃ vp, st.page pg = some vp ∧ vp.Backed f)
    (hwired : st'.wired = st.wired) (hholds : ∀ p, st'.holds n p = st.holds n p) :
    WireInv asked n st' := by
  refine h.callStep hpage hcall hranged hframe (fun p vp f hp hf => ?_) fun p hp => ?_
  · rw [hwired, hholds]
    exact h.counts p vp f hp hf
  · rw [hholds]
    exact h.absent p hp

/-- A call goes on, and its wires stay the same. -/
theorem holds_goOn_same (ht : t < n) (hc : st.call t = c) (hsame : ∀ p, c'.covers p = c.covers p)
    (p : Nat) : (st.goOn t c').holds n p = st.holds n p := by
  have h := holdsOf_update c' ht hc st.outstanding p
  rw [hsame p] at h
  exact Nat.add_right_cancel h

/-- A wire on one fixed page more or less is not counted. -/
theorem WireInv.fixedPage (h : WireInv asked n st) (hpage : st'.page = st.page)
    (hcall : st'.call = Function.update st.call t c') (hranged : c'.Ranged asked)
    (hframe : ∀ pg stop f, c' = .unwire pg stop f → ∃ vp, st.page pg = some vp ∧ vp.Backed f)
    (hwired : st'.wired = st.wired) {pg : Nat} {vp : WirePage} (hpg : st.page pg = some vp)
    (hfixed : vp.fixed = true) (hpresent : vp.present = true)
    (hholds : ∀ p, p ≠ pg → st'.holds n p = st.holds n p) : WireInv asked n st' := by
  refine h.callStep hpage hcall hranged hframe (fun p vp' f hp hf => ?_) fun p hp => ?_
  · have hne : p ≠ pg := by
      rintro rfl
      rw [hpg] at hp
      cases hp
      have hnot := hf.1
      rw [hfixed] at hnot
      cases hnot
    rw [hwired, hholds p hne]
    exact h.counts p vp' f hp hf
  · have hne : p ≠ pg := by
      rintro rfl
      rw [hp vp hpg] at hpresent
      cases hpresent
    rw [hholds p hne]
    exact h.absent p hp

/-- The frame of one page, and the wires on it, change together. -/
theorem WireInv.backedPage (h : WireInv asked n st) (hpage : st'.page = st.page)
    (hcall : st'.call = Function.update st.call t c') (hranged : c'.Ranged asked)
    (hframe : ∀ pg stop f, c' = .unwire pg stop f → ∃ vp, st.page pg = some vp ∧ vp.Backed f)
    {pg f w : Nat} {vp : WirePage} (hwired : st'.wired = Function.update st.wired f w)
    (hpg : st.page pg = some vp) (hf : vp.Backed f)
    (hholds : ∀ p, p ≠ pg → st'.holds n p = st.holds n p) (hw : st'.holds n pg = w) :
    WireInv asked n st' := by
  refine h.callStep hpage hcall hranged hframe (fun p vp' f' hp hf' => ?_) fun p hp => ?_
  · rw [hwired, Function.update_apply]
    split
    · next hff =>
      rw [hff] at hf'
      rw [h.apart p vp' pg vp f hp hf' hpg hf, hw]
    · next hff =>
      have hne : p ≠ pg := by
        rintro rfl
        rw [hpg] at hp
        cases hp
        exact hff (hf'.2.2.symm.trans hf.2.2)
      rw [hholds p hne]
      exact h.counts p vp' f' hp hf'
  · have hne : p ≠ pg := by
      rintro rfl
      have hpresent := hp vp hpg
      rw [hf.2.1] at hpresent
      cases hpresent
    rw [hholds p hne]
    exact h.absent p hp

/-- The pages that a call covers, one end having moved by one page. -/
theorem covers_eq_of_ne {a b a' b' p pg : Nat} (hp : p ≠ pg)
    (hmove : a' = a ∧ b' = b + 1 ∧ pg = b ∨ a' = a + 1 ∧ b' = b ∧ pg = a) :
    (decide (a' ≤ p) && decide (p < b')) = (decide (a ≤ p) && decide (p < b)) := by
  rw [Bool.eq_iff_iff]
  simp only [Bool.and_eq_true, decide_eq_true_iff]
  omega

theorem covers_end {a b : Nat} (hab : a ≤ b) :
    (decide (a ≤ b) && decide (b < b + 1)) = true ∧ (decide (a ≤ b) && decide (b < b)) = false := by
  simp only [Bool.and_eq_true, decide_eq_true_iff, Bool.and_eq_false_iff, decide_eq_false_iff_not]
  omega

theorem covers_start {a b : Nat} (hab : a < b) :
    (decide (a ≤ a) && decide (a < b)) = true ∧
      (decide (a + 1 ≤ a) && decide (a < b)) = false := by
  simp only [Bool.and_eq_true, decide_eq_true_iff, Bool.and_eq_false_iff, decide_eq_false_iff_not]
  omega

theorem not_covers_empty {a b p : Nat} (hab : b ≤ a) :
    (decide (a ≤ p) && decide (p < b)) = false := by
  simp only [Bool.and_eq_false_iff, decide_eq_false_iff_not]
  omega

/-- The wires when a call goes on over one page. -/
theorem holds_goOn_ne (ht : t < n) (hc : st.call t = c) {p : Nat}
    (hsame : c'.covers p = c.covers p) : (st.goOn t c').holds n p = st.holds n p := by
  have h := holdsOf_update c' ht hc st.outstanding p
  rw [hsame] at h
  exact Nat.add_right_cancel h

theorem holds_goOn_more (ht : t < n) (hc : st.call t = c) {p : Nat}
    (hold : c.covers p = false) (hnew : c'.covers p = true) :
    (st.goOn t c').holds n p = st.holds n p + 1 := by
  have h := holdsOf_update c' ht hc st.outstanding p
  rw [hold, hnew] at h
  exact h

theorem holds_goOn_less (ht : t < n) (hc : st.call t = c) {p : Nat}
    (hold : c.covers p = true) (hnew : c'.covers p = false) :
    (st.goOn t c').holds n p = st.holds n p - 1 := by
  have h := holdsOf_update c' ht hc st.outstanding p
  rw [hold, hnew] at h
  exact Nat.eq_sub_of_add_eq h

/-- A step of a call keeps the invariant. -/
theorem WireInv.step (h : WireInv asked n st) (ht : t < n) (hstep : WireStep asked st t st') :
    WireInv asked n st' := by
  have hranged := h.ranged t ht
  cases hstep with
  | wireVirt hc ptr bytes hasked =>
    refine h.quiet rfl rfl ⟨hasked, le_rfl, Or.inr rfl⟩ nofun rfl (holds_goOn_same ht hc fun p => ?_)
    exact not_covers_empty le_rfl
  | @wired ptr bytes pg hc hend =>
    rw [hc] at hranged
    refine h.quiet rfl rfl trivial nofun rfl fun p => ?_
    -- what the call covers is what the pair stands for from now on
    have hsame : (WireCall.wiring ptr bytes pg).covers p = wiredBy p (ptr, bytes) := by
      obtain ⟨-, hfirst, hlast | hnone⟩ := hranged
      · rw [show pg = lastPage ptr bytes + 1 by omega]
        rfl
      · have hbelow : lastPage ptr bytes + 1 ≤ firstPage ptr := by omega
        have hempty : wiredBy p (ptr, bytes) = false := not_covers_empty hbelow
        rw [hempty]
        exact not_covers_empty (by omega)
    have hgo := holdsOf_update .idle ht hc st.outstanding p
    rw [hsame] at hgo
    unfold WireState.holds WireState.goOn holdsOf at *
    rw [List.countP_cons]
    cases hw : wiredBy p (ptr, bytes) <;> rw [hw] at hgo <;>
      simp [WireCall.covers] at hgo ⊢ <;> omega
  | noPage hc hle hpage =>
    exact h.quiet rfl rfl trivial nofun rfl (holds_goOn_same ht hc fun _ => rfl)
  | @wireFixed ptr bytes pg hc hle vp hpage hfixed hpresent =>
    rw [hc] at hranged
    refine h.fixedPage rfl rfl ⟨hranged.1, by have := hranged.2.1; omega, Or.inl (by omega)⟩ nofun
      rfl hpage hfixed hpresent fun p hp => holds_goOn_ne ht hc ?_
    exact covers_eq_of_ne hp (Or.inl ⟨rfl, rfl, rfl⟩)
  | findFrame hc hle hpage hf =>
    rw [hc] at hranged
    exact h.quiet rfl rfl ⟨hranged.1, hranged.2.1, hle⟩ nofun rfl
      (holds_goOn_same ht hc fun _ => rfl)
  | retry hc hgone =>
    rw [hc] at hranged
    exact h.quiet rfl rfl ⟨hranged.1, hranged.2.1, Or.inl (by have := hranged.2.2; omega)⟩ nofun rfl
      (holds_goOn_same ht hc fun _ => rfl)
  | @wire ptr bytes pg f hc vp hpage hf hroom =>
    rw [hc] at hranged
    obtain ⟨hasked, hfirst, hlast⟩ := hranged
    refine h.backedPage rfl rfl ⟨hasked, by omega, Or.inl (by omega)⟩ nofun rfl hpage hf
      (fun p hp => holds_goOn_ne ht hc ?_) ?_
    · exact covers_eq_of_ne hp (Or.inl ⟨rfl, rfl, rfl⟩)
    · rw [h.counts pg vp f hpage hf]
      exact holds_goOn_more ht hc (covers_end hfirst).2 (covers_end hfirst).1
  | @unwireVirt hc ptr bytes hpair =>
    refine h.quiet rfl rfl trivial nofun rfl fun p => ?_
    have hgo := holdsOf_update (.unwiring (firstPage ptr) (lastPage ptr bytes + 1)) ht hc
      st.outstanding p
    have hcount : st.outstanding.countP (wiredBy p) =
        (st.outstanding.erase (ptr, bytes)).countP (wiredBy p) +
          (wiredBy p (ptr, bytes)).toNat := by
      rw [(List.perm_cons_erase hpair).countP_eq, List.countP_cons]
      cases wiredBy p (ptr, bytes) <;> rfl
    have hcover : (WireCall.unwiring (firstPage ptr) (lastPage ptr bytes + 1)).covers p =
        wiredBy p (ptr, bytes) := rfl
    rw [hcover] at hgo
    have hidle : (WireCall.idle).covers p = false := rfl
    rw [hidle] at hgo
    unfold WireState.holds WireState.goOn holdsOf at *
    simp only [Bool.toNat_false] at *
    omega
  | unwired hc hend =>
    refine h.quiet rfl rfl trivial nofun rfl (holds_goOn_same ht hc fun p => ?_)
    exact (not_covers_empty hend).symm
  | @unwireFixed pg stop hc hlt vp hpage hpresent hfixed =>
    refine h.fixedPage rfl rfl trivial nofun rfl hpage hfixed hpresent fun p hp =>
      holds_goOn_ne ht hc ?_
    exact covers_eq_of_ne hp (Or.inr ⟨rfl, rfl, rfl⟩)
  | @findWired pg stop hc hlt vp f hpage hf =>
    refine h.quiet rfl rfl hlt (fun pg' stop' f' heq => ?_) rfl
      (holds_goOn_same ht hc fun _ => rfl)
    cases heq
    exact ⟨vp, hpage, hf⟩
  | @unwire pg stop f hc hwired =>
    rw [hc] at hranged
    obtain ⟨vp, hpage, hf⟩ := h.frame t ht pg stop f hc
    refine h.backedPage rfl rfl trivial nofun rfl hpage hf
      (fun p hp => holds_goOn_ne ht hc ?_) ?_
    · exact covers_eq_of_ne hp (Or.inr ⟨rfl, rfl, rfl⟩)
    · rw [h.counts pg vp f hpage hf]
      exact holds_goOn_less ht hc (covers_start hranged).1 (covers_start hranged).2

/-- What happens to a page on which there is no wire. -/
theorem WireInv.pageStep (h : WireInv asked n st) (hcall : st'.call = st.call)
    (hout : st'.outstanding = st.outstanding) {p : Nat} {new : Option WirePage}
    (hpage : st'.page = Function.update st.page p new) (hfree : st.holds n p = 0)
    (hwired : ∀ q vp f, q ≠ p → st.page q = some vp → vp.Backed f → st'.wired f = st.wired f)
    (hnew : ∀ vp f, new = some vp → vp.Backed f →
      st'.wired f = 0 ∧ ∀ q vq, q ≠ p → st.page q = some vq → ¬ vq.Backed f) :
    WireInv asked n st' := by
  have hholds : ∀ q, st'.holds n q = st.holds n q := fun q => by
    unfold WireState.holds
    rw [hcall, hout]
  have hself : st'.page p = new := by rw [hpage, Function.update_self]
  have hother : ∀ q, q ≠ p → st'.page q = st.page q := fun q hq => by
    rw [hpage, Function.update_of_ne hq]
  refine ⟨fun q vq r vr f hq hqf hr hrf => ?_, fun q vp f hq hqf => ?_, fun q hq => ?_, ?_,
    fun u hu pg stop f huc => ?_⟩
  · by_cases hqp : q = p <;> by_cases hrp : r = p
    · rw [hqp, hrp]
    · rw [hqp, hself] at hq
      rw [hother r hrp] at hr
      exact absurd hrf ((hnew vq f hq hqf).2 r vr hrp hr)
    · rw [hrp, hself] at hr
      rw [hother q hqp] at hq
      exact absurd hqf ((hnew vr f hr hrf).2 q vq hqp hq)
    · rw [hother q hqp] at hq
      rw [hother r hrp] at hr
      exact h.apart q vq r vr f hq hqf hr hrf
  · rw [hholds]
    by_cases hqp : q = p
    · rw [hqp, hself] at hq
      rw [(hnew vp f hq hqf).1, hqp, hfree]
    · rw [hother q hqp] at hq
      rw [hwired q vp f hqp hq hqf]
      exact h.counts q vp f hq hqf
  · rw [hholds]
    by_cases hqp : q = p
    · rw [hqp, hfree]
    · rw [hother q hqp] at hq
      exact h.absent q hq
  · rw [hcall]
    exact h.ranged
  · rw [hcall] at huc
    have hpos := holds_pos hu huc (p := pg) (covers_start (by
      have hr := h.ranged u hu
      rw [huc] at hr
      exact hr)).1
    have hne : pg ≠ p := by
      rintro rfl
      omega
    rw [hother pg hne]
    exact h.frame u hu pg stop f huc

/-- A page that is not present, or whose frame is not wired, has no wire. -/
theorem WireInv.no_wire (h : WireInv asked n st) {p : Nat} {vp : WirePage}
    (hpage : st.page p = some vp) (hgone : vp.present = false) : st.holds n p = 0 :=
  h.absent p fun vp' hp' => by
    rw [hpage] at hp'
    cases hp'
    exact hgone

/-- What happens to the pages keeps the invariant. -/
theorem WireInv.env (h : WireInv asked n st) (hstep : PageStep n st st') :
    WireInv asked n st' := by
  cases hstep with
  | @create p hpage fixed frame =>
    refine h.pageStep rfl rfl rfl (h.absent p fun vp hp => ?_) (fun q vp f _ _ _ => rfl)
      fun vp f heq hf => ?_
    · rw [hpage] at hp
      cases hp
    · cases heq
      exact absurd hf.2.1 (by simp)
  | @faultFixed p vp hpage hfixed =>
    -- a fixed page has no frame that could be wired, so the invariant is shown again
    have hback : ∀ q vq f, (Function.update st.page p (some { vp with present := true })) q =
        some vq → vq.Backed f → st.page q = some vq := by
      intro q vq f hq hf
      rw [Function.update_apply] at hq
      split at hq
      · cases hq
        have hnot := hf.1
        rw [hfixed] at hnot
        cases hnot
      · exact hq
    refine ⟨fun q vq r vr f hq hqf hr hrf => ?_, fun q vq f hq hqf => ?_, fun q hq => ?_, h.ranged,
      fun u hu pg stop f huc => ?_⟩
    · exact h.apart q vq r vr f (hback q vq f hq hqf) hqf (hback r vr f hr hrf) hrf
    · exact h.counts q vq f (hback q vq f hq hqf) hqf
    · refine h.absent q fun vq hvq => ?_
      by_cases hqp : q = p
      · subst hqp
        have := hq _ (Function.update_self ..)
        cases this
      · exact hq vq (by rw [← hvq]; exact Function.update_of_ne hqp ..)
    · obtain ⟨vq, hvq, hf⟩ := h.frame u hu pg stop f huc
      refine ⟨vq, ?_, hf⟩
      have hne : pg ≠ p := by
        rintro rfl
        rw [hpage] at hvq
        cases hvq
        have hnot := hf.1
        rw [hfixed] at hnot
        cases hnot
      rw [← hvq]
      exact Function.update_of_ne hne ..
  | @fault p vp hpage hfixed hgone f hnew =>
    refine h.pageStep rfl rfl rfl (h.no_wire hpage hgone) (fun q vq g _ hq hqg => ?_)
      fun vq g heq hg => ?_
    · refine Function.update_of_ne (fun hgf => ?_) _ _
      exact hnew q vq hq (hgf ▸ hqg)
    · cases heq
      obtain rfl : f = g := hg.2.2
      exact ⟨Function.update_self .., fun q vq _ hq => hnew q vq hq⟩
  | @discard p vp f hpage hf hwired =>
    refine h.pageStep rfl rfl rfl (by rw [← h.counts p vp f hpage hf, hwired])
      (fun q vq g hqp hq hqg => ?_) fun vq g heq hg => ?_
    · refine Function.update_of_ne (fun hgf => ?_) _ _
      exact hqp (h.apart q vq p vp f hq (hgf ▸ hqg) hpage hf)
    · cases heq
      exact absurd hg.2.1 (by simp)
  | @releaseAbsent p vp hpage hgone =>
    exact h.pageStep rfl rfl rfl (h.no_wire hpage hgone) (fun q vq g _ _ _ => rfl)
      fun vq g heq _ => by cases heq
  | @release p vp f hpage hf hwired =>
    refine h.pageStep rfl rfl rfl (by rw [← h.counts p vp f hpage hf, hwired])
      (fun q vq g hqp hq hqg => ?_) fun vq g heq _ => by cases heq
    refine Function.update_of_ne (fun hgf => ?_) _ _
    exact hqp (h.apart q vq p vp f hq (hgf ▸ hqg) hpage hf)
  | @releaseFixed p vp hpage hfixed hfree =>
    exact h.pageStep rfl rfl rfl hfree (fun q vq g _ _ _ => rfl) fun vq g heq _ => by cases heq

/-- A wired frame stays where it is. -/
theorem WireInv.kept (h : WireInv asked n st) (hstep : PageStep n st st') {p : Nat}
    {vp : WirePage} {f : Nat} (hpage : st.page p = some vp) (hf : vp.Backed f)
    (hwired : 0 < st.wired f) : st'.page p = some vp := by
  have hpos : 0 < st.holds n p := by
    rw [← h.counts p vp f hpage hf]
    exact hwired
  have hother : ∀ {q : Nat} {new : Option WirePage}, p ≠ q →
      Function.update st.page q new p = some vp := fun hne => by
    rw [Function.update_of_ne hne]
    exact hpage
  cases hstep with
  | @create q hq fixed frame =>
    refine hother ?_
    rintro rfl
    rw [hpage] at hq
    cases hq
  | @faultFixed q vq hq hfixed =>
    refine hother ?_
    rintro rfl
    rw [hpage] at hq
    cases hq
    have hnot := hf.1
    rw [hfixed] at hnot
    cases hnot
  | @fault q vq hq hfixed hgone g hnew =>
    refine hother ?_
    rintro rfl
    have := h.no_wire hq hgone
    omega
  | @discard q vq g hq hg hzero =>
    refine hother ?_
    rintro rfl
    have := h.counts p vq g hq hg
    omega
  | @releaseAbsent q vq hq hgone =>
    refine hother ?_
    rintro rfl
    have := h.no_wire hq hgone
    omega
  | @release q vq g hq hg hzero =>
    refine hother ?_
    rintro rfl
    have := h.counts p vq g hq hg
    omega
  | @releaseFixed q vq hq hfixed hfree =>
    refine hother ?_
    rintro rfl
    omega

/-- The pages of the loop are the pages of the bytes, unless the end of the bytes wraps. -/
theorem page_in_loop {ptr bytes p : Nat} (hbytes : 1 ≤ bytes) (hend : ptr + bytes ≤ 4294967296)
    (hp : Overlaps ptr bytes p) : firstPage ptr ≤ p ∧ p ≤ lastPage ptr bytes := by
  obtain ⟨hbelow, habove⟩ := hp
  have hlast : lastPage ptr bytes = (ptr + bytes - 1) / 4096 := by
    unfold lastPage wsub wadd
    omega
  rw [hlast]
  unfold firstPage
  omega

theorem WireInv.sound (h : WireInv asked n st)
    (hasked : ∀ ptr bytes, asked ptr bytes → 1 ≤ bytes ∧ ptr + bytes ≤ 4294967296) :
    WireSound n st := by
  refine ⟨h.counts, fun t ht ptr bytes pg hc hend p hp => ?_, fun t ht pg stop hc hend p => ?_,
    fun hidle hout p vp f hpage hf => ?_, fun p vp f hpage hf hwired st' hstep =>
      h.kept hstep hpage hf hwired⟩
  · have hr := h.ranged t ht
    rw [hc] at hr
    obtain ⟨hbytes, hfits⟩ := hasked ptr bytes hr.1
    obtain ⟨hfirst, hlast⟩ := page_in_loop hbytes hfits hp
    have hcovers : (WireCall.wiring ptr bytes pg).covers p = true := by
      simp only [WireCall.covers, Bool.and_eq_true, decide_eq_true_iff]
      omega
    refine ⟨by rw [hc]; exact hcovers, ?_⟩
    by_contra hnone
    have hzero := h.absent p fun vp hvp => by
      by_contra hpresent
      exact hnone ⟨vp, hvp, by simpa using hpresent⟩
    have hpos := holds_pos ht hc hcovers
    omega
  · rw [hc]
    exact not_covers_empty hend
  · rw [h.counts p vp f hpage hf]
    unfold WireState.holds holdsOf
    rw [hout, List.countP_nil, Nat.add_zero]
    refine Nat.eq_zero_of_not_pos fun hpos => ?_
    obtain ⟨t, ht, hcover⟩ := count_pos_iff.mp hpos
    rw [hidle t ht] at hcover
    cases hcover

end Steps

/-! ## Runs -/

/-- Any call that `WireVirt` does not refuse. -/
def AnyWire (ptr bytes : Nat) : Prop :=
  0 < ptr ∧ ptr < wordSize ∧ 1 ≤ bytes ∧ bytes < wordSize

/-- The last byte has an address. -/
def EndFits (ptr bytes : Nat) : Prop := AnyWire ptr bytes ∧ ptr + bytes ≤ wordSize

/-- A step of one of the first `n` threads, or of what happens to the pages. -/
def AnyWireStep (asked : Nat → Nat → Prop) (n : Nat) (st st' : WireState) : Prop :=
  (∃ t < n, WireStep asked st t st') ∨ PageStep n st st'

theorem AnyWireStep.thread {asked : Nat → Nat → Prop} {n : Nat} {st st' : WireState} (t : Nat)
    (ht : t < n) (h : WireStep asked st t st') : AnyWireStep asked n st st' := Or.inl ⟨t, ht, h⟩

theorem AnyWireStep.pages {asked : Nat → Nat → Prop} {n : Nat} {st st' : WireState}
    (h : PageStep n st st') : AnyWireStep asked n st st' := Or.inr h

/-- No page and no call. -/
def wireStart : WireState :=
  { page := fun _ => none, wired := fun _ => 0, call := fun _ => .idle, outstanding := [] }

/--
**Wiring is all or nothing, and balanced.** In every run whose calls wire bytes that do not go
past the end of memory, with any number of threads and whatever happens to the pages around
them: a frame is wired as often as there are wires on its page, a call returns 0 with one wire
on each page of its bytes and returns an error with none, and a wired frame is not taken away.
-/
theorem wiring_balanced (n : Nat) (st : WireState)
    (hrun : Reaches (AnyWireStep EndFits n) wireStart st) : WireSound n st := by
  have hstart : WireInv EndFits n wireStart := by
    have hzero : ∀ p, wireStart.holds n p = 0 := fun p => by
      refine Nat.eq_zero_of_not_pos fun hpos => ?_
      obtain ⟨t, -, hcover⟩ := count_pos_iff.mp (hpos : 0 < Nat.count (fun _ => false = true) n)
      cases hcover
    exact ⟨nofun, nofun, fun p _ => hzero p, fun _ _ => trivial, nofun⟩
  have hinv : WireInv EndFits n st := hrun.invariant hstart fun a b ha hstep => by
    rcases hstep with ⟨t, ht, hstep⟩ | hstep
    · exact ha.step ht hstep
    · exact ha.env hstep
  exact hinv.sound fun ptr bytes hasked => ⟨hasked.1.2.2.1, hasked.2⟩

/-- Page 1 is created, faulted in and wired. -/
theorem wiring_balanced_page : ∃ st, Reaches (AnyWireStep EndFits 1) wireStart st ∧
    st.wired 5 = 1 ∧ WireSound 1 st := by
  have hfault : Reaches (AnyWireStep EndFits 1) wireStart _ :=
    (Relation.ReflTransGen.refl.tail (.pages (.create (p := 1) rfl false 0))).tail
      (.pages (.fault (p := 1) (f := 5) rfl rfl rfl fun q vq hq hback => by
        have hgone : vq.present = false := by
          by_cases hq1 : q = 1
          · subst hq1
            cases hq
            rfl
          · simp only [Function.update_of_ne hq1] at hq
            cases hq
        rw [hback.2.1] at hgone
        cases hgone))
  have hrun : Reaches (AnyWireStep EndFits 1) wireStart _ :=
    ((hfault.tail (.thread 0 Nat.one_pos (.wireVirt rfl 4096 1 ⟨⟨by decide, by decide, by decide,
      by decide⟩, by decide⟩))).tail
      (.thread 0 Nat.one_pos (.findFrame rfl (by decide) rfl ⟨rfl, rfl, rfl⟩))).tail
      (.thread 0 Nat.one_pos (.wire rfl rfl ⟨rfl, rfl, rfl⟩ (by decide)))
  exact ⟨_, hrun, rfl, wiring_balanced 1 _ hrun⟩

/-- `WireVirt` of all bytes from 4096 on returns 0 at once, and no page is resident. -/
theorem wire_past_end_not_sound :
    ∃ st, Reaches (AnyWireStep AnyWire 1) wireStart st ∧ ¬ WireSound 1 st := by
  refine ⟨_, Relation.ReflTransGen.single
    (.thread 0 Nat.one_pos (.wireVirt rfl 4096 4294967295 ⟨by decide, by decide, by decide,
      by decide⟩)), fun h => ?_⟩
  obtain ⟨-, vp, hpage, -⟩ := h.success 0 Nat.one_pos 4096 4294967295 1 rfl (by decide) 1
    ⟨by decide, by decide⟩
  cases hpage

end Nolrem.Vmm
