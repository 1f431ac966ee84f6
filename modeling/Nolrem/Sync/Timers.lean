import Nolrem.Sync.Queues

/-!
# The timer list

`AddThreadToSleepQueue` puts a thread on the list that starts at `first_waiting_timer`, and
`CancelTimer` takes it off. `wakeup_time_ns` is not 0 exactly for the threads on the list.
-/

namespace Nolrem.Sync

open Nolrem.Lib

/-- The timer list is `tl`. -/
structure Timed (s : Kernel) (tl : List Nat) : Prop where
  chain : Chain (fun t => (s.thr t).nextWaitingTimer) s.firstWaitingTimer tl
  mem : ∀ t, t ∈ tl ↔ (s.thr t).wakeupTimeNs ≠ 0

/-- `s'` is `s` but for the timer list, and `wakeup` gives the time of `t`. -/
structure Retimed (s s' : Kernel) (t wakeup : Nat) : Prop where
  thr : ∀ u, ∃ next, s'.thr u =
    { s.thr u with
      nextWaitingTimer := next
      wakeupTimeNs := if u = t then wakeup else (s.thr u).wakeupTimeNs }
  sem : s'.sem = s.sem
  clot : s'.clot = s.clot
  schedInit : s'.schedInit = s.schedInit
  nsSinceBoot : s'.nsSinceBoot = s.nsSinceBoot

namespace Retimed

variable {s s' : Kernel} {t wakeup : Nat}

theorem nextIn (h : Retimed s s' t wakeup) : nextIn s' = nextIn s := by
  funext k w
  cases w with
  | thread u =>
    obtain ⟨n, hn⟩ := h.thr u
    simp [Sync.nextIn, hn]
  | clot c => simp [Sync.nextIn, h.clot]

theorem ownerOf (h : Retimed s s' t wakeup) : ownerOf s' = ownerOf s := by
  funext w
  cases w with
  | thread u => rfl
  | clot c => simp [Sync.ownerOf, h.clot]

theorem linkable (h : Retimed s s' t wakeup) {k : Nat} {w : WaitObj} :
    Linkable s' k w ↔ Linkable s k w := by
  cases w with
  | thread u => exact Iff.rfl
  | clot c => simp [Linkable, h.clot]

theorem queues (h : Retimed s s' t wakeup) {q : Nat → List WaitObj} (hq : Queues s q) :
    Queues s' q := by
  refine ⟨?_, ?_, ?_, hq.bare, ?_⟩
  · rw [h.nextIn, h.sem]
    exact hq.chain
  · rw [h.sem]
    exact hq.last
  · exact fun k w hw => h.linkable.mpr (hq.linkable k w hw)
  · rw [h.ownerOf]
    exact hq.owners

end Retimed

/-! ## Taking a thread off -/

/-- The loop of `CancelTimer` finds the thread before `t`. -/
theorem timerBefore_spec {s : Kernel} {t : Nat} : ∀ {l : List Nat} {p : Nat} {start : Option Nat}
    (fuel : Nat), Chain (fun u => (s.thr u).nextWaitingTimer) start (p :: l) → t ∈ l →
    Ends (timerBefore s t fuel start)
      (fun r => ∃ a b c, p :: l = a ++ b :: t :: c ∧ r = some b)
      (fun e => e = .outOfFuel ∧ fuel ≤ l.length)
  | [], _, _, _, _, ht => by simp at ht
  | u :: l, p, start, fuel, hc, ht => by
    obtain ⟨rfl, hn, hl⟩ := hc
    cases fuel with
    | zero => simp [timerBefore]
    | succ fuel =>
      unfold timerBefore
      simp only at hn
      rw [hn]
      split
      · next hne =>
        have htl : t ∈ l := by
          rcases List.mem_cons.mp ht with rfl | ht
          · exact absurd rfl hne
          · exact ht
        refine (timerBefore_spec fuel (show Chain _ (some u) (u :: l) from ⟨rfl, hl⟩) htl).mono
          ?_ fun e he => ⟨he.1, by simpa using he.2⟩
        rintro _ ⟨a, b, c, habc, rfl⟩
        exact ⟨p :: a, b, c, by rw [habc, List.cons_append], rfl⟩
      · next heq =>
        obtain rfl : u = t := by simpa using heq
        exact ⟨[], p, l, rfl, rfl⟩

theorem unlinkTimer_spec {s : Kernel} {tl : List Nat} {t : Nat} (h : Timed s tl) (ht : t ∈ tl)
    (fuel : Nat) :
    Ends (unlinkTimer fuel s t)
      (fun s' => Chain (fun u => (s'.thr u).nextWaitingTimer) s'.firstWaitingTimer (tl.erase t) ∧
        Retimed s s' t (s.thr t).wakeupTimeNs)
      (fun e => e = .outOfFuel ∧ fuel ≤ tl.length) := by
  have hchain := h.chain
  have hsame : ∀ u, s.thr u = { s.thr u with
      wakeupTimeNs := if u = t then (s.thr t).wakeupTimeNs else (s.thr u).wakeupTimeNs } := by
    intro u
    split
    · next hu => rw [hu]
    · rfl
  unfold unlinkTimer
  cases tl with
  | nil => simp at ht
  | cons f tl =>
    obtain ⟨hf, htl⟩ := hchain
    have hnd := h.chain.nodup
    split
    · next heq =>
      obtain rfl : f = t := by
        rw [hf] at heq
        simpa using heq
      refine ⟨?_, fun u => ⟨_, hsame u⟩, rfl, rfl, rfl, rfl⟩
      rw [List.erase_cons_head]
      exact htl
    · next hne =>
      have hft : f ≠ t := fun hft => hne (by rw [hf, hft])
      have htl' : t ∈ tl := by
        rcases List.mem_cons.mp ht with rfl | ht
        · exact absurd rfl hft
        · exact ht
      refine ((timerBefore_spec fuel h.chain htl').mono (fun _ h => h)
        fun e he => ⟨he.1, Nat.le_succ_of_le he.2⟩).bind ?_
      rintro _ ⟨a, p, c, habc, rfl⟩
      rw [habc] at hnd ⊢
      have hta : t ∉ a ++ [p] := by
        intro hta
        have hnd' : ((a ++ [p]) ++ t :: c).Nodup := by simpa using hnd
        exact (List.nodup_append.mp hnd').2.2 t hta t (by simp) rfl
      have hpt : p ≠ t := by
        rintro rfl
        simp at hta
      refine ⟨?_, fun u => ?_, rfl, rfl, rfl, rfl⟩
      · have herase : (a ++ p :: t :: c).erase t = a ++ p :: c := by
          rw [show a ++ p :: t :: c = (a ++ [p]) ++ t :: c by simp,
            List.erase_append_right _ hta, List.erase_cons_head]
          simp
        rw [herase]
        have hc := h.chain
        rw [habc] at hc
        refine Chain.remove_after hc (by simp) fun u hup _ => by simp [hup]
      · by_cases hup : u = p
        · subst hup
          exact ⟨_, by simp [hpt]; rfl⟩
        · exact ⟨(s.thr u).nextWaitingTimer, by simpa [hup] using hsame u⟩

theorem clearTimer_spec {s s' : Kernel} {tl : List Nat} {t : Nat} (h : Timed s tl)
    (hr : Retimed s s' t (s.thr t).wakeupTimeNs)
    (hc : Chain (fun u => (s'.thr u).nextWaitingTimer) s'.firstWaitingTimer (tl.erase t)) :
    Timed (clearTimer s' t) (tl.erase t) ∧ Retimed s (clearTimer s' t) t 0 := by
  have hnd := h.chain.nodup
  have hthr : ∀ u, ∃ next, (clearTimer s' t).thr u =
      { s.thr u with
        nextWaitingTimer := next
        wakeupTimeNs := if u = t then 0 else (s.thr u).wakeupTimeNs } := by
    intro u
    obtain ⟨n, hn⟩ := hr.thr u
    by_cases hu : u = t
    · subst hu
      exact ⟨none, by simp [clearTimer, hn]⟩
    · exact ⟨n, by simp [clearTimer, hn, hu]⟩
  refine ⟨⟨?_, fun u => ?_⟩, hthr, hr.sem, hr.clot, hr.schedInit, hr.nsSinceBoot⟩
  · refine Chain.congr (fun u hu => ?_) hc
    have hut : u ≠ t := by
      rintro rfl
      exact (hnd.not_mem_erase) hu
    simp [clearTimer, hut]
  · obtain ⟨n, hn⟩ := hthr u
    rw [hn, hnd.mem_erase_iff, h.mem]
    by_cases hu : u = t <;> simp [hu]

theorem cancelTimer_spec {s : Kernel} {tl : List Nat} {t : Nat} (h : Timed s tl)
    (ht : (s.thr t).wakeupTimeNs ≠ 0) (fuel : Nat) :
    Ends (cancelTimer fuel s t) (fun s' => Timed s' (tl.erase t) ∧ Retimed s s' t 0)
      (fun e => e = .outOfFuel ∧ fuel ≤ tl.length) := by
  unfold cancelTimer
  rw [if_neg ht]
  refine (unlinkTimer_spec h ((h.mem t).mpr ht) fuel).bind ?_
  rintro s1 ⟨hc, hr⟩
  exact clearTimer_spec h hr hc

/-! ## Putting a thread on -/

/-- The loop of `AddThreadToSleepQueue` stops at a thread of the list. -/
theorem timerPlace_spec {s : Kernel} (ns : Nat) : ∀ {l : List Nat} {p : Nat} (fuel : Nat),
    Chain (fun u => (s.thr u).nextWaitingTimer) (some p) l →
    Ends (timerPlace s ns fuel p) (fun r => r ∈ l) (fun e => e = .outOfFuel ∧ fuel ≤ l.length)
  | [], p, _, hc => absurd (chain_nil.mp hc) (by simp)
  | u :: l, p, fuel, hc => by
    obtain ⟨hpu, hl⟩ := hc
    obtain rfl := Option.some.inj hpu
    cases fuel with
    | zero => simp [timerPlace]
    | succ fuel =>
      unfold timerPlace
      split
      · simp
      · next n hn =>
        split
        · have hl' : Chain (fun u => (s.thr u).nextWaitingTimer) (some n) l := hn ▸ hl
          exact (timerPlace_spec ns fuel hl').mono (fun r hr => List.mem_cons_of_mem _ hr)
            fun e he => ⟨he.1, by simpa using he.2⟩
        · simp

theorem insertTimer_spec {s : Kernel} {tl : List Nat} {t ns : Nat}
    (h : Chain (fun u => (s.thr u).nextWaitingTimer) s.firstWaitingTimer tl) (ht : t ∉ tl)
    (fuel : Nat) :
    Ends (insertTimer fuel s t ns)
      (fun s' => (∃ tl', Chain (fun u => (s'.thr u).nextWaitingTimer) s'.firstWaitingTimer tl' ∧
          tl'.Perm (t :: tl)) ∧ Retimed s s' t (s.thr t).wakeupTimeNs)
      (fun e => e = .outOfFuel ∧ fuel ≤ tl.length) := by
  have hset : ∀ (x : Kernel) (p : Nat) (next : Option Nat), Retimed s x t (s.thr t).wakeupTimeNs →
      Retimed s (x.setThr p fun th => { th with nextWaitingTimer := next }) t
        (s.thr t).wakeupTimeNs := by
    intro x p next hx
    refine ⟨fun u => ?_, hx.sem, hx.clot, hx.schedInit, hx.nsSinceBoot⟩
    obtain ⟨n, hn⟩ := hx.thr u
    by_cases hup : u = p
    · subst hup
      exact ⟨next, by simp [hn]⟩
    · exact ⟨n, by simp [hn, hup]⟩
  have hrefl : Retimed s s t (s.thr t).wakeupTimeNs := by
    refine ⟨fun u => ⟨(s.thr u).nextWaitingTimer, ?_⟩, rfl, rfl, rfl, rfl⟩
    split
    · next hu => rw [hu]
    · rfl
  have hfirst : ∀ (x : Kernel) (f : Option Nat), Retimed s x t (s.thr t).wakeupTimeNs →
      Retimed s { x with firstWaitingTimer := f } t (s.thr t).wakeupTimeNs :=
    fun x f hx => ⟨hx.thr, hx.sem, hx.clot, hx.schedInit, hx.nsSinceBoot⟩
  unfold insertTimer
  split
  · next hnone =>
    rw [hnone] at h
    have htl : tl = [] := h.start_eq_none_iff.mp rfl
    subst htl
    refine ⟨⟨[t], ⟨rfl, ?_⟩, List.Perm.refl _⟩, hfirst _ _ (hset _ _ _ hrefl)⟩
    simp
  · next f hf =>
    split
    · refine ⟨⟨t :: tl, ?_, List.Perm.refl _⟩, hfirst _ _ (hset _ _ _ hrefl)⟩
      refine Chain.push_front h ht ?_ fun u hu => by simp [hu]
      simp [hf]
    · have hf' : Chain (fun u => (s.thr u).nextWaitingTimer) (some f) tl := hf ▸ h
      refine (timerPlace_spec ns fuel hf').bind fun p hp => ?_
      obtain ⟨a, b, hab⟩ := List.append_of_mem hp
      have hpt : p ≠ t := fun hpt => ht (hpt ▸ hp)
      refine ⟨⟨a ++ p :: t :: b, ?_, ?_⟩, hset _ _ _ (hset _ _ _ hrefl)⟩
      · rw [hab] at h ht
        refine Chain.insert_after h ht (by simp) (by simp [hpt.symm])
          fun u hup hut => by simp [hup, hut]
      · rw [hab, show a ++ p :: t :: b = (a ++ [p]) ++ t :: b by simp,
          show a ++ p :: b = (a ++ [p]) ++ b by simp]
        exact List.perm_middle

end Nolrem.Sync
