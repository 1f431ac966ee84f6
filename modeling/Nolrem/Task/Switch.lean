import Nolrem.Task.Place

/-!
# Sections and switches

Between `AcquireScheduler` and the matching `ReleaseScheduler` interrupts are off, and no
switch happens before the last section is left. `Quiet` is what holds between two calls;
`Inv` adds the places of the threads.
-/

namespace Nolrem.Task

open Nolrem.Lib

/-! ## Interrupts and the spinlock -/

/-- `irq_disable_counter` was incremented at `k` and ran over. -/
def Wrapped (k : Nat) (e : Halt) : Prop := e = .irqCounterWrapped ∧ 4294967295 ≤ k

/-- The counter ran over, or the fuel was too little for a list of `n` threads. -/
def Overrun (k fuel n : Nat) (e : Halt) : Prop := Wrapped k e ∨ e = .outOfFuel ∧ fuel ≤ n

theorem Wrapped.mono {k k' : Nat} {e : Halt} (h : Wrapped k e) (hk : k ≤ k') : Wrapped k' e :=
  ⟨h.1, Nat.le_trans h.2 hk⟩

theorem Overrun.mono {k k' fuel n n' : Nat} {e : Halt} (h : Overrun k fuel n e) (hk : k ≤ k')
    (hn : n ≤ n') : Overrun k' fuel n' e :=
  h.imp (fun hw => hw.mono hk) fun hf => ⟨hf.1, Nat.le_trans hf.2 hn⟩

theorem acquireIrqPrevent_spec {s : Sched} (hk : s.cpu.irqDisableCounter < 4294967296) :
    Ends (acquireIrqPrevent s)
      (fun s' => ∃ cpu, s' = { s with cpu := cpu } ∧ cpu.interrupts = false ∧
        cpu.irqDisableCounter = s.cpu.irqDisableCounter + 1 ∧ cpu.irqDisableCounter < 4294967296)
      (Wrapped s.cpu.irqDisableCounter) := by
  unfold acquireIrqPrevent
  simp only
  split
  · exact ⟨rfl, by omega⟩
  · refine ⟨_, rfl, rfl, ?_, ?_⟩ <;> simp only <;> omega

theorem acquireSpinlock_spec {s : Sched} (hk : s.cpu.irqDisableCounter < 4294967296)
    (hlock : s.schedLock = false) :
    Ends (acquireSpinlock s)
      (fun s' => ∃ cpu, s' = { s with cpu := cpu, schedLock := true } ∧ cpu.interrupts = false ∧
        cpu.irqDisableCounter = s.cpu.irqDisableCounter + 1 ∧ cpu.irqDisableCounter < 4294967296)
      (Wrapped s.cpu.irqDisableCounter) := by
  refine (acquireIrqPrevent_spec hk).bind ?_
  rintro _ ⟨cpu, rfl, hcpu⟩
  simp only [hlock, Bool.false_eq_true, if_false, ends_ok]
  exact ⟨cpu, rfl, hcpu⟩

theorem releaseIrqPrevent_eq {s : Sched} (hk : 0 < s.cpu.irqDisableCounter) :
    ∃ cpu, releaseIrqPrevent s = .ok { s with cpu := cpu } ∧
      cpu.irqDisableCounter = s.cpu.irqDisableCounter - 1 ∧
      (1 < s.cpu.irqDisableCounter → cpu.interrupts = s.cpu.interrupts) := by
  unfold releaseIrqPrevent
  rw [if_neg (by omega)]
  split
  · next h => exact ⟨_, rfl, h.1.symm, fun h1 => by omega⟩
  · exact ⟨_, rfl, rfl, fun _ => rfl⟩

theorem releaseSpinlock_eq {s : Sched} (hk : 0 < s.cpu.irqDisableCounter) :
    ∃ cpu, releaseSpinlock s = .ok { s with cpu := cpu, schedLock := false } ∧
      cpu.irqDisableCounter = s.cpu.irqDisableCounter - 1 ∧
      (1 < s.cpu.irqDisableCounter → cpu.interrupts = s.cpu.interrupts) :=
  releaseIrqPrevent_eq (s := { s with schedLock := false }) hk

theorem finishRelease_eq {s : Sched} (hk : 1 < s.cpu.irqDisableCounter) :
    ∃ cpu, finishRelease s = .ok { s with cpu := cpu, schedLock := false } ∧
      cpu.irqDisableCounter = s.cpu.irqDisableCounter - 2 ∧
      (2 < s.cpu.irqDisableCounter → cpu.interrupts = s.cpu.interrupts) := by
  obtain ⟨cpu, h1, h2, h3⟩ := releaseSpinlock_eq (s := s) (by omega)
  obtain ⟨cpu', h4, h5, h6⟩ := releaseIrqPrevent_eq
    (s := { s with cpu := cpu, schedLock := false }) (by simp only; omega)
  simp only at h5 h6
  refine ⟨cpu', ?_, by omega, fun h => ?_⟩
  · unfold finishRelease
    rw [h1]
    exact h4
  · rw [h6 (by omega), h3 (by omega)]

theorem acquireScheduler_spec {s : Sched} (hk : s.cpu.irqDisableCounter < 4294967296)
    (hlock : s.schedLock = false) :
    Ends (acquireScheduler s)
      (fun s' => ∃ cpu,
        s' = { s with cpu := cpu, schedPreventCount := s.schedPreventCount + 1 } ∧
        cpu.interrupts = false ∧ cpu.irqDisableCounter = s.cpu.irqDisableCounter + 1 ∧
        cpu.irqDisableCounter < 4294967296)
      (Wrapped (s.cpu.irqDisableCounter + 1)) := by
  unfold acquireScheduler
  refine ((acquireIrqPrevent_spec hk).mono (fun _ h => h)
    (fun e he => he.mono (by omega))).bind ?_
  rintro _ ⟨cpu, rfl, h1, h2, h3⟩
  refine ((acquireSpinlock_spec (s := { s with cpu := cpu }) h3 hlock).mono (fun _ h => h)
    (fun e he => he.mono (Nat.le_of_eq h2))).bind ?_
  rintro _ ⟨cpu', rfl, h4, h5, h6⟩
  simp only at h5
  obtain ⟨cpu'', h7, h8, h9⟩ := releaseSpinlock_eq (s := { s with
    cpu := cpu', schedLock := true, schedPreventCount := s.schedPreventCount + 1 })
    (by simp only; omega)
  simp only at h8 h9
  rw [h7, ends_ok]
  refine ⟨cpu'', ?_, by rw [h9 (by omega), h4], by omega, by omega⟩
  rw [← hlock]

/-! ## Between two calls -/

/-- What holds of the counters between two calls, when `c` is the current thread. -/
structure Quiet (s : Sched) (c : Nat) : Prop where
  lock : s.schedLock = false
  prevent : 0 ≤ s.schedPreventCount
  /-- Each section has turned interrupts off once, and so has the section the idle loop is in. -/
  counter : (s.cpu.irqDisableCounter : Int) =
    s.schedPreventCount + if (s.thr c).idling = true then 1 else 0
  small : s.cpu.irqDisableCounter < 4294967296
  off : 0 < s.schedPreventCount → s.cpu.interrupts = false
  /-- Every other thread has stopped in `SwitchToThread`, under the spinlock in a section. -/
  saved : ∀ t, s.live t = true → t ≠ c → (s.thr t).irqDisableCounter = 2

/-- When a switch is due. -/
structure Due (s : Sched) (c : Nat) : Prop where
  held : s.schedPostponedThr ≠ none → s.schedPostponed = true
  pending : s.schedPostponed = true → 0 < s.schedPreventCount
  /-- A thread that no longer runs is idling, or a switch away from it is due. -/
  leaving : (s.thr c).state ≠ .running → (s.thr c).idling = true ∨ s.schedPostponed = true

/-- The invariant of the scheduler, with the current thread and the ready list. -/
structure InvAt (s : Sched) (c : Nat) (l : List Nat) : Prop where
  placed : Placed s c l s.schedPostponedThr noThread
  quiet : Quiet s c
  due : Due s c

/-- The invariant of the scheduler. -/
def Inv (s : Sched) : Prop := ∃ c l, InvAt s c l

/-- The new current thread is at the end of `ReleaseScheduler`, or at its entry. -/
structure Handed (s : Sched) (c : Nat) (l : List Nat) : Prop where
  placed : Placed s c l none noThread
  running : (s.thr c).state = .running
  lock : s.schedLock = true
  prevent : s.schedPreventCount = 0
  counter : s.cpu.irqDisableCounter = 2
  postponed : s.schedPostponed = false
  held : s.schedPostponedThr = none
  saved : ∀ t, s.live t = true → t ≠ c → (s.thr t).irqDisableCounter = 2

/-- `BeginNewThread` ends like `ReleaseScheduler`, and its thread has been entered. -/
theorem beginNewThread_eq {s : Sched} {t : Nat} (hprevent : s.schedPreventCount = 0)
    (hk : 1 < s.cpu.irqDisableCounter) :
    ∃ cpu, beginNewThread s t = .ok { s with
        cpu := cpu, schedLock := false,
        thr := fun u => { s.thr u with entered := if u = t then true else (s.thr u).entered } } ∧
      cpu.irqDisableCounter = s.cpu.irqDisableCounter - 2 := by
  obtain ⟨cpu, h1, h2, -⟩ := finishRelease_eq
    (s := s.modify t fun th => { th with entered := true }) hk
  refine ⟨cpu, ?_, h2⟩
  have hthr : (s.modify t fun th => { th with entered := true }).thr =
      fun u => { s.thr u with entered := if u = t then true else (s.thr u).entered } := by
    funext u
    by_cases hu : u = t <;> simp [hu]
  rw [hthr] at h1
  have hbegin : beginNewThread s t =
      finishRelease (s.modify t fun th => { th with entered := true }) := by
    unfold beginNewThread finishRelease
    simp only [hprevent, decide_true, if_true]
  rw [hbegin]
  exact h1

theorem resume_spec {s : Sched} {c : Nat} {l : List Nat} (h : Handed s c l) :
    Ends (resume s) (fun s' => Inv s' ∧ Wakeful s s') (fun _ => False) := by
  have hid := h.placed.running h.running
  have hk := h.counter
  have hres : resume s = if (s.thr c).entered then finishRelease s else beginNewThread s c := by
    unfold resume
    rw [h.placed.current]
  -- whichever of the two tails runs, only the counters and `entered` change
  have key : ∃ (cpu : Cpu) (b : Nat → Bool), resume s = .ok { s with
      cpu := cpu, schedLock := false, thr := fun t => { s.thr t with entered := b t } } ∧
      cpu.irqDisableCounter = 0 := by
    rw [hres]
    split
    · obtain ⟨cpu, h1, h2, -⟩ := finishRelease_eq (s := s) (by omega)
      exact ⟨cpu, fun t => (s.thr t).entered, h1, by omega⟩
    · obtain ⟨cpu, h1, h2⟩ := beginNewThread_eq (t := c) h.prevent (by omega)
      exact ⟨cpu, _, h1, by omega⟩
  obtain ⟨cpu, b, heq, hcpu⟩ := key
  rw [heq, ends_ok]
  refine ⟨⟨c, l, ?_, ?_, ?_⟩, fun t ht => ht⟩
  · simp only [h.held]
    exact h.placed.frame ⟨fun _ => ⟨rfl, rfl, rfl, rfl⟩, rfl, rfl, rfl, rfl, rfl, rfl⟩
  · constructor
    · rfl
    · exact Int.le_of_eq h.prevent.symm
    · simp [h.prevent, hid, hcpu]
    · simp [hcpu]
    · intro hp
      simp [h.prevent] at hp
    · exact h.saved
  · constructor
    · intro hp
      exact absurd h.held hp
    · intro hp
      simp [h.postponed] at hp
    · intro hr
      exact absurd h.running hr

/-! ## Switching -/

theorem idlePark_spec {s : Sched} {c : Nat} {l : List Nat}
    (h : Placed s c l none noThread) (hid : (s.thr c).idling = true)
    (hprevent : s.schedPreventCount = 0) (hk : s.cpu.irqDisableCounter = 2)
    (hpost : s.schedPostponed = false) (hheld : s.schedPostponedThr = none)
    (hsaved : ∀ t, s.live t = true → t ≠ c → (s.thr t).irqDisableCounter = 2) :
    Ends (idlePark s) (fun s' => Inv s' ∧ Wakeful s s') (fun _ => False) := by
  obtain ⟨cpu, h1, h2, -⟩ := releaseSpinlock_eq
    (s := { s with ogSeq := s.somethingUnblockedSeq }) (by simp only; omega)
  unfold idlePark
  rw [h1]
  refine ⟨⟨c, l, ?_, ?_, ?_⟩, fun t ht => ht⟩
  · simp only [hheld]
    exact h.frame ⟨fun _ => ⟨rfl, rfl, rfl, rfl⟩, rfl, rfl, rfl, rfl, rfl, rfl⟩
  · simp only at h2
    constructor
    · rfl
    · exact Int.le_of_eq hprevent.symm
    · simp [hprevent, hid, h2, hk]
    · simp [h2, hk]
    · intro hp
      simp [hprevent] at hp
    · exact hsaved
  · constructor
    · intro hp
      exact absurd hheld hp
    · intro hp
      simp [hpost] at hp
    · exact fun _ => Or.inl hid

/-- The CPU is inside `SwitchToThread`, with `c` still the current thread. -/
structure Switching (s : Sched) (c : Nat) : Prop where
  idle : (s.thr c).idling = false
  lock : s.schedLock = true
  interrupts : s.cpu.interrupts = false
  prevent : s.schedPreventCount = 0
  counter : s.cpu.irqDisableCounter = 2
  postponed : s.schedPostponed = false
  held : s.schedPostponedThr = none
  saved : ∀ t, s.live t = true → t ≠ c → (s.thr t).irqDisableCounter = 2

/-- Queueing and dequeueing keep the CPU inside `SwitchToThread`. -/
theorem Switching.relinked {s s' : Sched} {c : Nat} (h : Switching s c) (hr : Relinked s s') :
    Switching s' c := by
  obtain ⟨next, head, tail, rfl⟩ := hr
  exact ⟨h.idle, h.lock, h.interrupts, h.prevent, h.counter, h.postponed, h.held, h.saved⟩

theorem Switching.setReady {s : Sched} {c : Nat} (h : Switching s c) (t : Nat) :
    Switching (s.setReady t) c := by
  refine ⟨?_, h.lock, h.interrupts, h.prevent, h.counter, h.postponed, h.held, ?_⟩
  · by_cases hct : c = t
    · subst hct
      simpa [Sched.setReady] using h.idle
    · simpa [Sched.setReady, hct] using h.idle
  · intro u hu huc
    by_cases hut : u = t
    · subst hut
      simpa [Sched.setReady] using h.saved u hu huc
    · simpa [Sched.setReady, hut] using h.saved u hu huc

theorem addToBackOfReadyQueue_wakeful (s : Sched) (t : Nat) :
    Wakeful s (addToBackOfReadyQueue s t) := by
  obtain ⟨next, head, tail, heq⟩ := addToBackOfReadyQueue_relinked s t
  intro u hu
  rw [heq]
  by_cases hut : u = t <;> simp [Sched.setReady, hut, hu]

theorem Relinked.wakeful {s s' : Sched} (h : Relinked s s') : Wakeful s s' := by
  obtain ⟨next, head, tail, rfl⟩ := h
  exact fun _ ht => ht

theorem runThread_handed {s : Sched} {c t : Nat} {l : List Nat}
    (h : Placed s c l none (fun u => u = t)) (hs : Switching s c) (ht : s.live t = true)
    (htl : t ∉ l) (htc : t ≠ c) (hcan : canThreadRunOnThisCpu s t = true)
    (hc : (s.thr c).state ≠ .running) :
    Handed (runThread s c t) t l ∧ Wakeful s (runThread s c t) := by
  refine ⟨⟨h.runOther ht htl htc hcan hs.idle hc, ?_, hs.lock, hs.prevent, ?_, hs.postponed,
    hs.held, ?_⟩, ?_⟩
  · simp [runThread, htc]
  · simpa [runThread, htc] using hs.saved t ht htc
  · intro u hu hut
    by_cases huc : u = c
    · subst huc
      simpa [runThread, hut] using hs.counter
    · simpa [runThread, hut, huc] using hs.saved u hu huc
  · intro u hu
    by_cases hut : u = t
    · subst hut
      simp [runThread, htc]
    · by_cases huc : u = c
      · subst huc
        simpa [runThread, hut] using hu
      · simpa [runThread, hut, huc] using hu

/-- What `SwitchToThread` leaves, for the rest of `ReleaseScheduler`. -/
def Switched (s : Sched) (res : Sched × Control) : Prop :=
  Wakeful s res.1 ∧
    match res.2 with
    | .returned => ∃ c l, Handed res.1 c l
    | .parked => Inv res.1

theorem runFound_handed {s : Sched} {c t : Nat} {l : List Nat}
    (h : Placed s c l none (fun u => u = t)) (hs : Switching s c) (ht : s.live t = true)
    (htl : t ∉ l) (hcan : canThreadRunOnThisCpu s t = true)
    (hc : t ≠ c → (s.thr c).state ≠ .running) :
    Handed (runFound s c t) t l ∧ Wakeful s (runFound s c t) := by
  unfold runFound
  split
  · next htc =>
    subst htc
    refine ⟨⟨h.runSelf htl hs.idle, by simp, hs.lock, hs.prevent, hs.counter, hs.postponed,
      hs.held, ?_⟩, ?_⟩
    · intro u hu hut
      simpa [hut] using hs.saved u hu hut
    · intro u hu
      by_cases hut : u = t
      · subst hut
        simp
      · simpa [hut] using hu
  · next htc => exact runThread_handed h hs ht htl htc hcan (hc htc)

theorem FoundNext.handed {s s' : Sched} {c t : Nat} {l : List Nat}
    (h : Placed s c l none noThread) (hs : Switching s c) (hf : FoundNext s l s' (some t))
    (hc : (s.thr c).state ≠ .running) :
    ∃ l', Handed (runFound s' c t) t l' ∧ Wakeful s (runFound s' c t) := by
  obtain ⟨hcan, hr, a, b, hl, hlinked⟩ := hf.some_ok t rfl
  have hplaced := (h.take hl hr hlinked).mono (o := fun u => u = t) (by simp)
  have hlive := (h.listed t (by simp [hl])).1
  have hnd := h.linked.chain.nodup
  have htl : t ∉ a ++ b := by
    rw [hl] at hnd
    exact (List.nodup_cons.mp (List.perm_middle.nodup_iff.mp hnd)).1
  have hw := hr.wakeful
  have hs' := hs.relinked hr
  obtain ⟨next, head, tail, rfl⟩ := hr
  obtain ⟨h1, h2⟩ := runFound_handed hplaced hs' hlive htl hcan (fun _ => hc)
  exact ⟨a ++ b, h1, hw.trans h2⟩

theorem pickThread_spec {s : Sched} {c : Nat} {l : List Nat} {p : Option Nat}
    (h : Placed s c l p noThread) (hs : Switching s c) (hc : (s.thr c).state ≠ .running)
    (fuel : Nat) :
    Ends (pickThread fuel s c p) (Switched s) (fun e => e = .outOfFuel ∧ fuel ≤ l.length) := by
  unfold pickThread
  cases p with
  | some t =>
    obtain ⟨hlive, hready, htl, htc, hcan, -⟩ := h.held t rfl
    simp only [hcan, if_true, ends_ok]
    obtain ⟨h1, h2⟩ := runThread_handed (h.unhold.mono (o := fun u => u = t) (by simp)) hs
      hlive htl htc hcan hc
    exact ⟨h2, t, l, h1⟩
  | none =>
    refine (findNextThread_spec h.linked fuel).bind ?_
    rintro ⟨s', found⟩ hf
    cases found with
    | some t =>
      obtain ⟨l', h1, h2⟩ := hf.handed h hs hc
      exact ⟨h2, t, l', h1⟩
    | none =>
      obtain ⟨rfl, hnone⟩ := hf.none_ok rfl
      -- a woken thread would be on the list, and it can run here
      have hblocked : (s'.thr c).state = .blocked := by
        cases hst : (s'.thr c).state with
        | running => exact absurd hst hc
        | ready =>
          have hcl := (h.woken id hst).mpr hs.idle
          have := hnone c hcl
          rw [h.currentRuns] at this
          simp at this
        | blocked => rfl
      simp only [hblocked, ne_eq, not_true_eq_false, if_false]
      have hpark : Placed (s'.modify c fun th => { th with idling := true }) c l none noThread := by
        have hsame : ∀ u, ((s'.modify c fun th => { th with idling := true }).thr u).state =
            (s'.thr u).state ∧ ((s'.modify c fun th => { th with idling := true }).thr u).nextReady =
            (s'.thr u).nextReady ∧
            ((s'.modify c fun th => { th with idling := true }).thr u).affinityBitmask =
            (s'.thr u).affinityBitmask := by
          intro u
          by_cases hu : u = c
          · subst hu
            simp
          · simp [hu]
        refine ⟨h.init, h.current, h.currentLive, ?_, ⟨?_, h.linked.tail⟩, ?_, ?_, ?_, ?_, ?_, ?_⟩
        · have := h.currentRuns
          unfold canThreadRunOnThisCpu at this ⊢
          rw [(hsame c).2.2]
          exact this
        · exact Chain.congr (fun u _ => (hsame u).2.1) h.linked.chain
        · intro u hu
          rw [(hsame u).1]
          exact h.listed u hu
        · intro u hu
          simp at hu
        · intro hr
          rw [(hsame c).1, hblocked] at hr
          simp at hr
        · intro _ hr
          rw [(hsame c).1, hblocked] at hr
          simp at hr
        · intro u hu huc ho
          rw [(hsame u).1]
          exact h.others u hu huc ho
        · intro u hu hi
          by_cases huc : u = c
          · exact huc
          · simp only [Sched.modify, ne_eq, huc, not_false_eq_true, Function.update_of_ne] at hi
            exact h.idling u hu hi
      refine (idlePark_spec hpark (by simp) hs.prevent hs.counter hs.postponed hs.held ?_).mono
        (fun _ h => h) (fun _ h => h.elim) |>.bind ?_
      · intro u hu huc
        simpa [huc] using hs.saved u hu huc
      · rintro s2 ⟨h1, h2⟩
        refine ⟨?_, h1⟩
        intro u hu
        refine h2 u ?_
        by_cases huc : u = c
        · subst huc
          simpa using hu
        · simpa [huc] using hu

theorem switchToThread_spec {s : Sched} {c : Nat} {l : List Nat} {p : Option Nat}
    (h : Placed s c l p noThread) (hs : Switching s c) (fuel : Nat) :
    Ends (switchToThread fuel s p) (Switched s)
      (fun e => e = .outOfFuel ∧ fuel ≤ l.length + 1) := by
  unfold switchToThread
  simp only [h.init, Bool.true_eq_false, if_false, hs.interrupts, hs.prevent, hs.lock,
    Bool.false_eq_true, Int.lt_irrefl, or_self, getCurrentThread, h.current]
  show Ends (if (s.thr c).state = .running then _ else _) _ _
  split
  · next hrun =>
    split
    · next hnone =>
      obtain ⟨-, rfl⟩ := hnone
      refine ⟨Wakeful.refl s, c, l, h, hrun, hs.lock, hs.prevent, hs.counter, hs.postponed,
        hs.held, hs.saved⟩
    · have hcl := h.current_not_mem (by simp [hrun])
      have hpc : p ≠ some c := fun hp => (h.held c hp).2.2.2.1 rfl
      have hq := (h.queue h.currentLive hcl hpc hs.idle).mono (o := noThread) (by simp)
      have hsq := (hs.setReady c).relinked (addToBackOfReadyQueue_relinked s c)
      have hst : ((addToBackOfReadyQueue s c).thr c).state ≠ .running := by
        have := (hq.listed c (by simp)).2
        simp [this]
      refine (pickThread_spec hq hsq hst fuel).mono (fun res hres => ?_)
        (fun e he => ⟨he.1, by simpa using he.2⟩)
      exact ⟨(addToBackOfReadyQueue_wakeful s c).trans hres.1, hres.2⟩
  · next hrun =>
    exact (pickThread_spec h hs hrun fuel).mono (fun _ h => h) (fun e he => ⟨he.1, by omega⟩)

end Nolrem.Task
