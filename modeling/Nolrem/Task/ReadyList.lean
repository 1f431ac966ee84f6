import Nolrem.Lib.Chain
import Nolrem.Task.Scheduler

/-!
# The ready list

What `AddToBackOfReadyQueue` and `FindNextThread` do to the list that starts at
`ready_list_head`. Neither touches anything but the links and, for the thread that is
queued, its `state`.
-/

namespace Nolrem.Task

open Nolrem.Lib

attribute [simp] Sched.modify Sched.setNext bumpSeq

/-- The list from `ready_list_head` on is `l`, and `ready_list_tail` is its last thread. -/
structure Linked (s : Sched) (l : List Nat) : Prop where
  chain : Chain (fun t => (s.thr t).nextReady) s.readyListHead l
  tail : s.readyListTail = l.getLast?

/-- `s'` is `s` but for the ready list. -/
def Relinked (s s' : Sched) : Prop :=
  ∃ (next : Nat → Option Nat) (head tail : Option Nat), s' =
    { s with
      thr := fun t => { s.thr t with nextReady := next t }
      readyListHead := head
      readyListTail := tail }

namespace Relinked

variable {s s' : Sched}

theorem refl (s : Sched) : Relinked s s :=
  ⟨fun t => (s.thr t).nextReady, s.readyListHead, s.readyListTail, rfl⟩

theorem setNext (h : Relinked s s') (t : Nat) (n : Option Nat) :
    Relinked s (s'.setNext t n) := by
  obtain ⟨next, head, tail, rfl⟩ := h
  refine ⟨Function.update next t n, head, tail, ?_⟩
  simp only [Sched.setNext, Sched.modify, Sched.mk.injEq, true_and, and_true]
  funext u
  by_cases hu : u = t
  · subst hu
    simp
  · simp [hu]

theorem setEnds (h : Relinked s s') (head tail : Option Nat) :
    Relinked s { s' with readyListHead := head, readyListTail := tail } := by
  obtain ⟨next, _, _, rfl⟩ := h
  exact ⟨next, head, tail, rfl⟩

end Relinked

/-! ## Queueing -/

/-- `thr->state = THREAD_STATE_READY` -/
def Sched.setReady (s : Sched) (t : Nat) : Sched :=
  s.modify t fun th => { th with state := .ready }

theorem addToBackOfReadyQueue_relinked (s : Sched) (t : Nat) :
    Relinked (s.setReady t) (addToBackOfReadyQueue s t) := by
  have h1 : Relinked (s.setReady t)
      (s.modify t fun th => { th with state := .ready, nextReady := none }) := by
    have := (Relinked.refl (s.setReady t)).setNext t none
    simpa [Sched.setReady] using this
  unfold addToBackOfReadyQueue
  simp only
  split
  · exact h1.setEnds _ _
  · next z _ => exact (h1.setNext z (some t)).setEnds _ _

theorem addToBackOfReadyQueue_linked {s : Sched} {l : List Nat} {t : Nat} (h : Linked s l)
    (ht : t ∉ l) : Linked (addToBackOfReadyQueue s t) (l ++ [t]) := by
  rcases List.eq_nil_or_concat l with rfl | ⟨l', z, rfl⟩
  · have hhead : s.readyListHead = none := h.chain
    have htail : s.readyListTail = none := h.tail
    constructor <;> simp [addToBackOfReadyQueue, hhead, htail]
  · have hz : s.readyListTail = some z := by simpa using h.tail
    have hhead : s.readyListHead ≠ none := by
      intro hn
      simpa using h.chain.start_eq_none_iff.mp hn
    have htz : t ≠ z := by
      rintro rfl
      exact ht (by simp)
    constructor
    · have hc := h.chain
      simp only [List.concat_eq_append] at hc ht ⊢
      simp only [addToBackOfReadyQueue, Sched.setNext, Sched.modify, hz, hhead, if_false,
        List.append_assoc, List.cons_append, List.nil_append]
      refine Chain.push_back hc ht (by simp [htz.symm]) (by simp [htz]) fun b hbz hbt => ?_
      simp [hbz, hbt]
    · simp [addToBackOfReadyQueue, hz]

/-! ## Taking the next thread -/

theorem unlinkReady_relinked (s : Sched) (prev : Option Nat) (t : Nat) :
    Relinked s (unlinkReady s prev t) := by
  unfold unlinkReady
  cases prev with
  | none =>
    simp only
    split
    · exact Relinked.setNext ((Relinked.refl s).setEnds _ _) t none
    · exact Relinked.setNext ((Relinked.refl s).setEnds (s.thr t).nextReady s.readyListTail) t none
  | some p =>
    have h1 := (Relinked.refl s).setNext p (s.thr t).nextReady
    simp only
    split
    · exact Relinked.setNext (h1.setEnds s.readyListHead (some p)) t none
    · exact h1.setNext t none

theorem unlinkReady_head (s : Sched) (prev : Option Nat) (t : Nat) :
    (unlinkReady s prev t).readyListHead =
      if prev = none then (s.thr t).nextReady else s.readyListHead := by
  unfold unlinkReady
  cases prev <;> simp only <;> split <;> simp

theorem unlinkReady_tail (s : Sched) (prev : Option Nat) (t : Nat) :
    (unlinkReady s prev t).readyListTail =
      if s.readyListTail = some t then prev else s.readyListTail := by
  unfold unlinkReady
  cases prev <;> simp only <;> split <;> simp_all

theorem unlinkReady_next {s : Sched} {prev : Option Nat} {t u : Nat} (hu : u ≠ t) :
    ((unlinkReady s prev t).thr u).nextReady =
      if prev = some u then (s.thr t).nextReady else (s.thr u).nextReady := by
  unfold unlinkReady
  cases prev with
  | none => simp only; split <;> simp [hu]
  | some p =>
    by_cases hp : u = p
    · subst hp
      simp only
      split <;> simp [hu]
    · have hp' : p ≠ u := fun h => hp h.symm
      simp only
      split <;> simp [hu, hp, hp']

theorem unlinkReady_linked {s : Sched} {l r : List Nat} {t : Nat} (h : Linked s (l ++ t :: r)) :
    Linked (unlinkReady s l.getLast? t) (l ++ r) := by
  have hc := h.chain
  have hnd := hc.nodup
  constructor
  · rw [unlinkReady_head]
    rcases List.eq_nil_or_concat l with rfl | ⟨l', p, rfl⟩
    · exact Chain.remove_head hc fun b hb => unlinkReady_next hb
    · simp only [List.concat_eq_append, List.append_assoc, List.cons_append, List.nil_append]
        at hc hnd ⊢
      have hpt : p ≠ t := by
        rintro rfl
        simp [List.nodup_append] at hnd
      have hlast : (l' ++ [p]).getLast? = some p := by simp
      rw [hlast, if_neg (by simp)]
      refine Chain.remove_after hc ?_ fun b hbp hbt => ?_
      · rw [unlinkReady_next hpt, if_pos rfl]
      · rw [unlinkReady_next hbt, if_neg (by simpa using hbp.symm)]
  · rw [unlinkReady_tail, h.tail]
    rcases List.eq_nil_or_concat r with rfl | ⟨r', z, rfl⟩
    · simp
    · have hzt : z ≠ t := by
        rintro rfl
        simp [List.nodup_append] at hnd
      have hlast : (l ++ t :: r'.concat z).getLast? = some z := by
        rw [List.concat_eq_append, ← List.cons_append, ← List.append_assoc]
        exact List.getLast?_concat
      rw [hlast, if_neg (by simpa using hzt), List.concat_eq_append, ← List.append_assoc]
      exact List.getLast?_concat.symm

/-- What `FindNextThread` does to the ready list `l`. -/
structure FoundNext (s : Sched) (l : List Nat) (s' : Sched) (found : Option Nat) : Prop where
  none_ok : found = none → s' = s ∧ ∀ t ∈ l, canThreadRunOnThisCpu s t = false
  some_ok : ∀ t, found = some t → canThreadRunOnThisCpu s t = true ∧ Relinked s s' ∧
    ∃ a b, l = a ++ t :: b ∧ Linked s' (a ++ b)

theorem findNextFrom_spec {s : Sched} {l : List Nat} (h : Linked s l) : ∀ (r a : List Nat)
    (fuel : Nat) (prev t : Option Nat), l = a ++ r →
    (∀ u ∈ a, canThreadRunOnThisCpu s u = false) → prev = a.getLast? →
    Chain (fun u => (s.thr u).nextReady) t r →
    Ends (findNextFrom s fuel prev t) (fun res => FoundNext s l res.1 res.2)
      (fun e => e = .outOfFuel ∧ fuel ≤ r.length) := by
  intro r
  induction r with
  | nil =>
    intro a fuel prev t hl ha _ ht
    obtain rfl : t = none := ht
    cases fuel with
    | zero => simp [findNextFrom]
    | succ fuel =>
      refine ⟨fun _ => ⟨rfl, ?_⟩, fun t h => by simp at h⟩
      simpa [hl] using ha
  | cons b r ih =>
    intro a fuel prev t hl ha hprev ht
    obtain ⟨rfl, hr⟩ := ht
    cases fuel with
    | zero => simp [findNextFrom]
    | succ fuel =>
      unfold findNextFrom
      split
      · next hb =>
        refine ⟨fun h => by simp at h, fun t ht => ?_⟩
        obtain rfl := Option.some.inj ht
        subst hprev hl
        exact ⟨hb, unlinkReady_relinked _ _ _, a, r, rfl, unlinkReady_linked h⟩
      · next hb =>
        refine (ih (a ++ [b]) fuel (some b) _ (by simpa using hl) ?_ (by simp) hr).mono
          (fun _ h => h) (fun e he => ⟨he.1, by simpa using he.2⟩)
        intro u hu
        rcases List.mem_append.mp hu with hu | hu
        · exact ha u hu
        · simpa [List.mem_singleton.mp hu] using hb

theorem findNextThread_spec {s : Sched} {l : List Nat} (h : Linked s l) (fuel : Nat) :
    Ends (findNextThread fuel s) (fun res => FoundNext s l res.1 res.2)
      (fun e => e = .outOfFuel ∧ fuel ≤ l.length) :=
  findNextFrom_spec h l [] fuel none _ rfl (by simp) rfl h.chain

end Nolrem.Task
