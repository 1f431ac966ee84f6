import Nolrem.Task.Runs

/-!
# Nested sections

`irq_disable_counter` and `saved_interrupt_enabled` belong to the CPU, and
`SwitchToThread` exchanges them with the copies of the threads. `Nesting` records for each
thread the sections that it has begun, and `Balanced` says how the counters follow it.
-/

namespace Nolrem.Task

open Nolrem.Lib

/-! ## Sections -/

/-- What begins with a call of `AcquireIrqPrevent`. -/
inductive Bracket where
  | irqPrevent
  | spinlock (lock : Nat)
  | scheduler
deriving DecidableEq, Repr

/-- The history of the sections, which the kernel does not keep. -/
structure Nesting where
  /-- The sections a thread is in, the innermost first. -/
  held : Nat → List Bracket
  /-- The interrupt flag when the outermost section of a thread began. -/
  began : Nat → Bool
  /-- How many sections the current thread was in when it parked in the idle loop. -/
  parked : Nat

namespace Nesting

/-- `c` begins a section while the interrupt flag is `flag`. -/
def enter (g : Nesting) (c : Nat) (flag : Bool) (b : Bracket) : Nesting :=
  { g with
    held := Function.update g.held c (b :: g.held c)
    began := if g.held c = [] then Function.update g.began c flag else g.began }

/-- `c` ends its innermost section. -/
def leave (g : Nesting) (c : Nat) : Nesting :=
  { g with held := Function.update g.held c (g.held c).tail }

/-- `c` parks in the idle loop, in the section it was about to end. -/
def park (g : Nesting) (c : Nat) : Nesting :=
  { g with parked := (g.held c).length }

/-- A new thread starts at the end of a section that began with interrupts on. -/
def create (g : Nesting) (t : Nat) : Nesting :=
  { g with
    held := Function.update g.held t [.scheduler]
    began := Function.update g.began t true }

end Nesting

/-- The current thread. -/
def Sched.current (s : Sched) : Nat := s.currentThread.getD 0

/-- A section of the current thread of `s` ends there, if its call is not parked. -/
def Nesting.settle (g : Nesting) (s : Sched) : Nesting :=
  if Parked s then g.park s.current else g.leave s.current

/-! ## The invariant -/

/-- What the scheduler finds by a pointer is a thread. -/
structure LiveLinks (s : Sched) : Prop where
  head : ∀ u, s.readyListHead = some u → s.live u = true
  next : ∀ t u, s.live t = true → (s.thr t).nextReady = some u → s.live u = true
  held : ∀ u, s.schedPostponedThr = some u → s.live u = true

/-- `t` has stopped in `SwitchToThread`, under `sched_lock`, or is still at its entry. -/
structure Stopped (s : Sched) (g : Nesting) (t : Nat) : Prop where
  sections : g.held t ≠ []
  counter : (s.thr t).irqDisableCounter = (g.held t).length + 1
  small : (g.held t).length + 1 < 4294967296
  saved : (s.thr t).savedInterruptEnabled = g.began t
  idling : (s.thr t).idling = false
  fresh : (s.thr t).entered = false → g.held t = [.scheduler] ∧ g.began t = true

/-- `c` is the current thread, and every other thread has stopped. -/
structure Running (s : Sched) (g : Nesting) (c : Nat) : Prop where
  init : s.schedInit = true
  current : s.currentThread = some c
  currentLive : s.live c = true
  others : ∀ t, s.live t = true → t ≠ c → Stopped s g t
  links : LiveLinks s

/-- What holds between two calls. -/
structure Balanced (s : Sched) (g : Nesting) (c : Nat) : Prop extends Running s g c where
  entered : (s.thr c).entered = true
  counter : s.cpu.irqDisableCounter = (g.held c).length
  small : (g.held c).length < 4294967296
  saved : g.held c ≠ [] → s.cpu.savedInterruptEnabled = g.began c
  off : g.held c ≠ [] →
    s.cpu.interrupts = false ∨ (s.thr c).idling = true ∧ (g.held c).length = g.parked
  window : (s.thr c).idling = true → 0 < g.parked ∧ g.parked ≤ (g.held c).length

/-- What holds at the end of `ReleaseScheduler`, under `sched_lock`. -/
structure Locked (s : Sched) (g : Nesting) (c : Nat) : Prop extends Running s g c where
  interrupts : s.cpu.interrupts = false
  sections : g.held c ≠ []
  counter : s.cpu.irqDisableCounter = (g.held c).length + 1
  small : (g.held c).length + 1 < 4294967296
  saved : s.cpu.savedInterruptEnabled = g.began c
  window : (s.thr c).idling = true → 0 < g.parked ∧ g.parked < (g.held c).length
  fresh : (s.thr c).entered = false → g.held c = [.scheduler] ∧ g.began c = true

/-- `c` has begun a section since the idle loop. -/
def Inner (s : Sched) (g : Nesting) (c : Nat) : Prop :=
  g.held c ≠ [] ∧ ((s.thr c).idling = true → g.parked < (g.held c).length)

/-- The innermost section of `c` has ended, or `c` is parked in it. -/
def Settled (g : Nesting) (s : Sched) : Prop :=
  ∃ c, Balanced s (g.settle s) c ∧
    ((g.settle s).held c = [] → s.cpu.interrupts = (g.settle s).began c)

/-- A panic of `irqctrl.c` is that the counter ran over, with `n` sections at once. -/
def Deep (n : Nat) (e : Halt) : Prop :=
  e ≠ .irqCounterZero ∧ (e = .irqCounterWrapped → 4294967296 ≤ n)

theorem Deep.mono {n n' : Nat} {e : Halt} (h : Deep n e) (hn : n ≤ n') : Deep n' e :=
  ⟨h.1, fun he => Nat.le_trans (h.2 he) hn⟩

/-! ## The counter and the flag -/

/-- The CPU after `AcquireIrqPrevent`. -/
def Cpu.acquired (cpu : Cpu) : Cpu where
  interrupts := false
  irqDisableCounter := cpu.irqDisableCounter + 1
  savedInterruptEnabled :=
    if cpu.irqDisableCounter = 0 then cpu.interrupts else cpu.savedInterruptEnabled

/-- The CPU after `n` calls of `ReleaseIrqPrevent`. -/
def Cpu.released (cpu : Cpu) (n : Nat) : Cpu :=
  { cpu with
    interrupts :=
      cpu.interrupts || (decide (cpu.irqDisableCounter = n) && cpu.savedInterruptEnabled)
    irqDisableCounter := cpu.irqDisableCounter - n }

theorem acquireIrqPrevent_ok {s : Sched} (hlt : s.cpu.irqDisableCounter + 1 < 4294967296) :
    acquireIrqPrevent s = .ok { s with cpu := s.cpu.acquired } := by
  unfold acquireIrqPrevent
  simp only [Nat.mod_eq_of_lt hlt]
  rw [if_neg (by omega)]
  rfl

theorem acquireIrqPrevent_wrapped {s : Sched} (h : s.cpu.irqDisableCounter + 1 = 4294967296) :
    acquireIrqPrevent s = .error .irqCounterWrapped := by
  unfold acquireIrqPrevent
  simp [h]

theorem acquireIrqPrevent_cpu {s : Sched} (hk : s.cpu.irqDisableCounter < 4294967296) :
    Ends (acquireIrqPrevent s)
      (fun s' => s' = { s with cpu := s.cpu.acquired } ∧
        s.cpu.irqDisableCounter + 1 < 4294967296)
      (Deep (s.cpu.irqDisableCounter + 1)) := by
  by_cases hlt : s.cpu.irqDisableCounter + 1 < 4294967296
  · rw [acquireIrqPrevent_ok hlt]
    exact ⟨rfl, hlt⟩
  · rw [acquireIrqPrevent_wrapped (by omega)]
    exact ⟨by simp, fun _ => Nat.le_of_not_lt hlt⟩

theorem acquireSpinlock_cpu {s : Sched} (hk : s.cpu.irqDisableCounter < 4294967296) :
    Ends (acquireSpinlock s)
      (fun s' => s' = { s with cpu := s.cpu.acquired, schedLock := true } ∧
        s.cpu.irqDisableCounter + 1 < 4294967296)
      (Deep (s.cpu.irqDisableCounter + 1)) := by
  refine (acquireIrqPrevent_cpu hk).bind ?_
  rintro _ ⟨rfl, hlt⟩
  simp only
  split
  · exact ⟨by simp, by simp⟩
  · exact ⟨rfl, hlt⟩

theorem releaseIrqPrevent_cpu {s : Sched} (hk : 0 < s.cpu.irqDisableCounter) :
    releaseIrqPrevent s = .ok { s with cpu := s.cpu.released 1 } := by
  unfold releaseIrqPrevent Cpu.released
  rw [if_neg (by omega)]
  by_cases h1 : s.cpu.irqDisableCounter = 1
  · by_cases hsaved : s.cpu.savedInterruptEnabled = true
    · simp [h1, hsaved]
    · simp [h1, hsaved]
  · rw [if_neg fun h => h1 (by omega)]
    simp [h1]

theorem finishRelease_cpu {s : Sched} (hk : 1 < s.cpu.irqDisableCounter) :
    finishRelease s = .ok { s with cpu := s.cpu.released 2, schedLock := false } := by
  have h1 := releaseIrqPrevent_cpu (s := { s with schedLock := false }) (by simp only; omega)
  unfold finishRelease releaseSpinlock
  rw [h1]
  show releaseIrqPrevent _ = _
  rw [releaseIrqPrevent_cpu (by simp only [Cpu.released]; omega)]
  -- the first of the two calls does not reach zero
  have hne : s.cpu.irqDisableCounter ≠ 1 := by omega
  have hiff : s.cpu.irqDisableCounter - 1 = 1 ↔ s.cpu.irqDisableCounter = 2 := by omega
  simp [Cpu.released, hne, hiff, Nat.sub_sub]

theorem Cpu.acquired_acquired_released (cpu : Cpu) :
    cpu.acquired.acquired.released 1 = cpu.acquired := by
  simp [Cpu.acquired, Cpu.released]

theorem acquireScheduler_cpu {s : Sched} (hk : s.cpu.irqDisableCounter < 4294967296) :
    Ends (acquireScheduler s)
      (fun s' => s' = { s with
          cpu := s.cpu.acquired, schedLock := false
          schedPreventCount := s.schedPreventCount + 1 } ∧
        s.cpu.irqDisableCounter + 1 < 4294967296)
      (Deep (s.cpu.irqDisableCounter + 2)) := by
  unfold acquireScheduler
  refine ((acquireIrqPrevent_cpu hk).mono (fun _ h => h)
    (fun e he => he.mono (by omega))).bind ?_
  rintro _ ⟨rfl, hlt⟩
  refine ((acquireSpinlock_cpu (s := { s with cpu := s.cpu.acquired }) hlt).mono (fun _ h => h)
    (fun e he => he.mono (Nat.le_refl _))).bind ?_
  rintro _ ⟨rfl, -⟩
  have h1 := releaseIrqPrevent_cpu (s := { s with
    cpu := s.cpu.acquired.acquired, schedLock := false
    schedPreventCount := s.schedPreventCount + 1 }) (by simp only [Cpu.acquired]; omega)
  simp only [Cpu.acquired_acquired_released] at h1
  show Ends (releaseIrqPrevent _) _ _
  rw [h1]
  exact ⟨rfl, hlt⟩

/-! ## What the sections do not depend on -/

/-- `s'` has the counters, the flags and the current thread of `s`. -/
structure SameNest (s s' : Sched) : Prop where
  cpu : s'.cpu = s.cpu
  init : s'.schedInit = s.schedInit
  current : s'.currentThread = s.currentThread
  live : s'.live = s.live
  thr : ∀ t, (s'.thr t).irqDisableCounter = (s.thr t).irqDisableCounter ∧
    (s'.thr t).savedInterruptEnabled = (s.thr t).savedInterruptEnabled ∧
    (s'.thr t).idling = (s.thr t).idling ∧ (s'.thr t).entered = (s.thr t).entered

namespace SameNest

variable {s s' s'' : Sched}

theorem refl (s : Sched) : SameNest s s := ⟨rfl, rfl, rfl, rfl, fun _ => ⟨rfl, rfl, rfl, rfl⟩⟩

theorem trans (h : SameNest s s') (h' : SameNest s' s'') : SameNest s s'' := by
  refine ⟨h'.cpu.trans h.cpu, h'.init.trans h.init, h'.current.trans h.current,
    h'.live.trans h.live, fun t => ?_⟩
  obtain ⟨h1, h2, h3, h4⟩ := h.thr t
  obtain ⟨h5, h6, h7, h8⟩ := h'.thr t
  exact ⟨h5.trans h1, h6.trans h2, h7.trans h3, h8.trans h4⟩

theorem ofRelinked (h : Relinked s s') : SameNest s s' := by
  obtain ⟨next, head, tail, rfl⟩ := h
  exact ⟨rfl, rfl, rfl, rfl, fun _ => ⟨rfl, rfl, rfl, rfl⟩⟩

/-- Assignments to other fields of a thread. -/
theorem modify (t : Nat) {f : Thread → Thread}
    (hf : ∀ th, (f th).irqDisableCounter = th.irqDisableCounter ∧
      (f th).savedInterruptEnabled = th.savedInterruptEnabled ∧
      (f th).idling = th.idling ∧ (f th).entered = th.entered) :
    SameNest s (s.modify t f) := by
  refine ⟨rfl, rfl, rfl, rfl, fun u => ?_⟩
  by_cases hut : u = t
  · subst hut
    simpa using hf (s.thr u)
  · simp [hut]

theorem queue (s : Sched) (t : Nat) : SameNest s (addToBackOfReadyQueue s t) := by
  have hready : SameNest s (s.setReady t) := modify t fun _ => ⟨rfl, rfl, rfl, rfl⟩
  exact hready.trans (ofRelinked (addToBackOfReadyQueue_relinked s t))

end SameNest

theorem Stopped.frame {s s' : Sched} {g : Nesting} {t : Nat} (h : Stopped s g t)
    (hs : SameNest s s') : Stopped s' g t := by
  obtain ⟨h1, h2, h3, h4⟩ := hs.thr t
  exact ⟨h.sections, h1.trans h.counter, h.small, h2.trans h.saved, h3.trans h.idling,
    fun he => h.fresh (h4.symm.trans he)⟩

theorem Running.frame {s s' : Sched} {g : Nesting} {c : Nat} (h : Running s g c)
    (hs : SameNest s s') (hlinks : LiveLinks s') : Running s' g c := by
  refine ⟨hs.init.trans h.init, hs.current.trans h.current, ?_, fun t ht htc => ?_, hlinks⟩
  · rw [hs.live]
    exact h.currentLive
  · rw [hs.live] at ht
    exact (h.others t ht htc).frame hs

theorem Balanced.frame {s s' : Sched} {g : Nesting} {c : Nat} (h : Balanced s g c)
    (hs : SameNest s s') (hlinks : LiveLinks s') : Balanced s' g c := by
  obtain ⟨-, -, h3, h4⟩ := hs.thr c
  refine ⟨h.toRunning.frame hs hlinks, h4.trans h.entered, ?_, h.small, ?_, ?_, ?_⟩
  · rw [hs.cpu]
    exact h.counter
  · rw [hs.cpu]
    exact h.saved
  · rw [hs.cpu, h3]
    exact h.off
  · rw [h3]
    exact h.window

theorem Locked.frame {s s' : Sched} {g : Nesting} {c : Nat} (h : Locked s g c)
    (hs : SameNest s s') (hlinks : LiveLinks s') : Locked s' g c := by
  obtain ⟨-, -, h3, h4⟩ := hs.thr c
  refine ⟨h.toRunning.frame hs hlinks, ?_, h.sections, ?_, h.small, ?_, ?_, ?_⟩
  · rw [hs.cpu]
    exact h.interrupts
  · rw [hs.cpu]
    exact h.counter
  · rw [hs.cpu]
    exact h.saved
  · rw [h3]
    exact h.window
  · rw [h4]
    exact h.fresh

/-! ## The pointers -/

namespace LiveLinks

variable {s : Sched}

theorem modify (h : LiveLinks s) (t : Nat) {f : Thread → Thread}
    (hf : ∀ u, s.live t = true → (f (s.thr t)).nextReady = some u → s.live u = true) :
    LiveLinks (s.modify t f) := by
  refine ⟨h.head, fun v u hv hu => ?_, h.held⟩
  by_cases hvt : v = t
  · subst hvt
    exact hf u hv (by simpa using hu)
  · exact h.next v u hv (by simpa [hvt] using hu)

/-- Assignments that leave the link of the thread. -/
theorem keep (h : LiveLinks s) (t : Nat) {f : Thread → Thread}
    (hf : ∀ th, (f th).nextReady = th.nextReady) : LiveLinks (s.modify t f) :=
  h.modify t fun u ht hu => h.next t u ht ((hf _).symm.trans hu)

/-- The links of the threads that are queued and of the one that is taken are set to null. -/
theorem clear (h : LiveLinks s) (t : Nat) {f : Thread → Thread}
    (hf : ∀ th, (f th).nextReady = none) : LiveLinks (s.modify t f) :=
  h.modify t fun u _ hu => by simp [hf] at hu

theorem queue (h : LiveLinks s) {t : Nat} (ht : s.live t = true) :
    LiveLinks (addToBackOfReadyQueue s t) := by
  have h1 : LiveLinks (s.modify t fun th => { th with state := .ready, nextReady := none }) :=
    h.clear t fun _ => rfl
  have hhead : ∀ s1 : Sched, LiveLinks s1 → s1.live t = true →
      LiveLinks { s1 with
        readyListTail := some t
        readyListHead := if s1.readyListHead = none then some t else s1.readyListHead } := by
    intro s1 hs1 hlive
    refine ⟨fun u hu => ?_, hs1.next, hs1.held⟩
    simp only at hu
    split at hu
    · exact Option.some.inj hu ▸ hlive
    · exact hs1.head u hu
  unfold addToBackOfReadyQueue
  simp only
  split
  · exact hhead _ h1 ht
  · next z _ =>
    exact hhead _ (h1.modify z fun u _ hu => Option.some.inj hu ▸ ht) ht

theorem unlink (h : LiveLinks s) (prev : Option Nat) {t : Nat} (ht : s.live t = true) :
    LiveLinks (unlinkReady s prev t) := by
  have htail : ∀ s1 : Sched, LiveLinks s1 → LiveLinks
      ((if s1.readyListTail = some t then { s1 with readyListTail := prev } else s1).setNext t
        none) := by
    intro s1 hs1
    refine clear ?_ t fun _ => rfl
    split
    · exact ⟨hs1.head, hs1.next, hs1.held⟩
    · exact hs1
  unfold unlinkReady
  cases prev with
  | none => exact htail _ ⟨fun u hu => h.next t u ht hu, h.next, h.held⟩
  | some p => exact htail _ (h.modify p fun u _ hu => h.next t u ht hu)

end LiveLinks

/-- `FindNextThread` finds a thread, whatever the order of the list is. -/
theorem findNextFrom_live {s : Sched} (h : LiveLinks s) : ∀ (fuel : Nat) (prev t : Option Nat),
    (∀ u, t = some u → s.live u = true) →
    Ends (findNextFrom s fuel prev t)
      (fun res => SameNest s res.1 ∧ LiveLinks res.1 ∧ ∀ u, res.2 = some u → s.live u = true)
      (Deep 0) := by
  intro fuel
  induction fuel with
  | zero =>
    intro prev t _
    cases t <;> exact ⟨by simp, by simp⟩
  | succ fuel ih =>
    intro prev t ht
    cases t with
    | none => exact ⟨.refl s, h, by simp⟩
    | some t =>
      have hlive := ht t rfl
      unfold findNextFrom
      split
      · exact ⟨.ofRelinked (unlinkReady_relinked s prev t), h.unlink prev hlive, ht⟩
      · exact ih (some t) _ fun u hu => h.next t u hlive hu

theorem findNextThread_live {s : Sched} (h : LiveLinks s) (fuel : Nat) :
    Ends (findNextThread fuel s)
      (fun res => SameNest s res.1 ∧ LiveLinks res.1 ∧ ∀ u, res.2 = some u → s.live u = true)
      (Deep 0) :=
  findNextFrom_live h fuel none _ h.head

/-! ## Between two sections -/

theorem Nesting.leave_held (g : Nesting) (c : Nat) : (g.leave c).held c = (g.held c).tail := by
  simp [Nesting.leave]

theorem Nesting.leave_held_of_ne (g : Nesting) {c t : Nat} (h : t ≠ c) :
    (g.leave c).held t = g.held t := by
  simp [Nesting.leave, h]

theorem Nesting.enter_held (g : Nesting) (c : Nat) (flag : Bool) (b : Bracket) :
    (g.enter c flag b).held c = b :: g.held c := by
  simp [Nesting.enter]

/-- Another thread's sections are not concerned. -/
theorem Stopped.other {s : Sched} {g g' : Nesting} {t : Nat} (h : Stopped s g t)
    (hheld : g'.held t = g.held t) (hbegan : g'.began t = g.began t) : Stopped s g' t := by
  obtain ⟨h1, h2, h3, h4, h5, h6⟩ := h
  exact ⟨by rwa [hheld], by rwa [hheld], by rwa [hheld], by rwa [hbegan], h5,
    by rwa [hheld, hbegan]⟩

theorem Running.leave {s : Sched} {g : Nesting} {c : Nat} (h : Running s g c) :
    Running s (g.leave c) c :=
  ⟨h.init, h.current, h.currentLive,
    fun t ht htc => (h.others t ht htc).other (g.leave_held_of_ne htc) rfl, h.links⟩

theorem Running.enter {s : Sched} {g : Nesting} {c : Nat} (h : Running s g c) (flag : Bool)
    (b : Bracket) : Running s (g.enter c flag b) c := by
  refine ⟨h.init, h.current, h.currentLive, fun t ht htc => ?_, h.links⟩
  refine (h.others t ht htc).other ?_ ?_
  · simp [Nesting.enter, htc]
  · unfold Nesting.enter
    simp only
    split
    · simp [htc]
    · rfl

/-- Assignments to the current thread do not matter to the others. -/
theorem Running.modify {s : Sched} {g : Nesting} {c : Nat} (h : Running s g c)
    {f : Thread → Thread} (hf : ∀ th, (f th).nextReady = th.nextReady) :
    Running (s.modify c f) g c := by
  refine ⟨h.init, h.current, h.currentLive, fun t ht htc => ?_, h.links.keep c hf⟩
  obtain ⟨h1, h2, h3, h4, h5, h6⟩ := h.others t ht htc
  refine ⟨h1, ?_, h3, ?_, ?_, ?_⟩ <;> simpa [htc]

theorem Running.current_eq {s : Sched} {g : Nesting} {c : Nat} (h : Running s g c) :
    s.current = c := by
  simp [Sched.current, h.current]

theorem Running.idling_eq {s : Sched} {g : Nesting} {c : Nat} (h : Running s g c) :
    isCurrentThreadIdling s = (s.thr c).idling := by
  simp [isCurrentThreadIdling, h.current, h.init]

/-- The counter, the CPU's lock and the count of the scheduler do not matter to the others. -/
theorem Running.cpu {s : Sched} {g : Nesting} {c : Nat} (h : Running s g c) (cpu : Cpu)
    (lock : Bool) (prevent : Int) :
    Running { s with cpu := cpu, schedLock := lock, schedPreventCount := prevent } g c :=
  ⟨h.init, h.current, h.currentLive,
    fun t ht htc =>
      let ⟨h1, h2, h3, h4, h5, h6⟩ := h.others t ht htc
      ⟨h1, h2, h3, h4, h5, h6⟩,
    ⟨h.links.head, h.links.next, h.links.held⟩⟩

/-- The saved flag is that of the outermost section, which may begin now. -/
theorem Balanced.acquired_saved {s : Sched} {g : Nesting} {c : Nat} (h : Balanced s g c)
    (b : Bracket) :
    s.cpu.acquired.savedInterruptEnabled = (g.enter c s.cpu.interrupts b).began c := by
  unfold Cpu.acquired Nesting.enter
  simp only [h.counter, List.length_eq_zero_iff]
  split
  · simp
  · next hheld => exact h.saved hheld

/-- Every way to begin a section. -/
theorem Balanced.enter {s : Sched} {g : Nesting} {c : Nat} (h : Balanced s g c)
    (hlt : s.cpu.irqDisableCounter + 1 < 4294967296) (b : Bracket) (lock : Bool) (prevent : Int) :
    Balanced { s with cpu := s.cpu.acquired, schedLock := lock, schedPreventCount := prevent }
      (g.enter c s.cpu.interrupts b) c := by
  have hheld := g.enter_held c s.cpu.interrupts b
  have hk := h.counter
  refine ⟨(h.toRunning.enter _ b).cpu _ _ _, h.entered, ?_, ?_, fun _ => ?_, fun _ => Or.inl rfl,
    fun hid => ?_⟩
  · simp [hheld, Cpu.acquired, hk]
  · simp only [hheld, List.length_cons]
    omega
  · exact h.acquired_saved b
  · obtain ⟨h1, h2⟩ := h.window hid
    simp only [hheld, List.length_cons]
    exact ⟨h1, Nat.le_succ_of_le h2⟩

theorem Balanced.enter_inner {s : Sched} {g : Nesting} {c : Nat} (h : Balanced s g c)
    (b : Bracket) (s' : Sched) (hid : (s'.thr c).idling = (s.thr c).idling) :
    Inner s' (g.enter c s.cpu.interrupts b) c := by
  refine ⟨by simp [g.enter_held], fun hidle => ?_⟩
  rw [hid] at hidle
  have := (h.window hidle).2
  simp only [g.enter_held, List.length_cons]
  exact Nat.lt_succ_of_le this

theorem Inner.interrupts {s : Sched} {g : Nesting} {c : Nat} (h : Inner s g c)
    (hb : Balanced s g c) : s.cpu.interrupts = false := by
  rcases hb.off h.1 with hoff | ⟨hid, hlen⟩
  · exact hoff
  · have := h.2 hid
    omega

/--
`n` calls of `ReleaseIrqPrevent` end the innermost section, which was `n` deep in the
counter. If it was the outermost one the flag is restored.
-/
theorem Running.left {s : Sched} {g : Nesting} {c n : Nat} (h : Running s g c)
    (hent : (s.thr c).entered = true) (hsec : g.held c ≠ []) (hoff : s.cpu.interrupts = false)
    (hk : s.cpu.irqDisableCounter + 1 = (g.held c).length + n)
    (hsmall : (g.held c).length < 4294967296) (hsaved : s.cpu.savedInterruptEnabled = g.began c)
    (hwindow : (s.thr c).idling = true → 0 < g.parked ∧ g.parked < (g.held c).length)
    (lock : Bool) :
    Balanced { s with cpu := s.cpu.released n, schedLock := lock } (g.leave c) c ∧
      ((g.leave c).held c = [] → (s.cpu.released n).interrupts = (g.leave c).began c) := by
  have hpos : 0 < (g.held c).length := List.length_pos_iff.mpr hsec
  have hlast : s.cpu.irqDisableCounter = n ↔ (g.held c).length = 1 := by omega
  have hflag : (s.cpu.released n).interrupts =
      (decide ((g.held c).length = 1) && g.began c) := by
    simp [Cpu.released, hoff, hsaved, hlast]
  have htail : (g.leave c).held c = [] ↔ (g.held c).length = 1 := by
    rw [g.leave_held, ← List.length_eq_zero_iff, List.length_tail]
    omega
  refine ⟨⟨h.leave.cpu _ _ _, hent, ?_, ?_, fun _ => hsaved, fun hne => Or.inl ?_,
    fun hid => ?_⟩, fun hend => ?_⟩
  · rw [g.leave_held, List.length_tail]
    simp only [Cpu.released]
    omega
  · rw [g.leave_held, List.length_tail]
    omega
  · have hlen : (g.held c).length ≠ 1 := fun h1 => hne (htail.mpr h1)
    simp [hflag, hlen]
  · obtain ⟨h1, h2⟩ := hwindow hid
    rw [g.leave_held, List.length_tail]
    exact ⟨h1, Nat.le_sub_one_of_lt h2⟩
  · simp [hflag, htail.mp hend, Nesting.leave]

/-- `ReleaseIrqPrevent` ends the innermost section. -/
theorem Balanced.leave {s : Sched} {g : Nesting} {c : Nat} (h : Balanced s g c)
    (hin : Inner s g c) :
    ∃ s', releaseIrqPrevent s = .ok s' ∧ Balanced s' (g.leave c) c ∧
      ((g.leave c).held c = [] → s'.cpu.interrupts = (g.leave c).began c) := by
  have hpos : 0 < (g.held c).length := List.length_pos_iff.mpr hin.1
  have hk := h.counter
  obtain ⟨hbal, hflag⟩ := h.toRunning.left (n := 1) h.entered hin.1 (hin.interrupts h)
    (by omega) h.small (h.saved hin.1) (fun hid => ⟨(h.window hid).1, hin.2 hid⟩) s.schedLock
  exact ⟨_, releaseIrqPrevent_cpu (by omega), hbal, hflag⟩

/-! ## The end of `ReleaseScheduler` -/

/-- `finishRelease` leaves the section that the call was in. -/
theorem Locked.finish {s : Sched} {g : Nesting} {c : Nat} (h : Locked s g c)
    (hent : (s.thr c).entered = true) : Ends (finishRelease s) (Settled g) (Deep 0) := by
  have hpos : 0 < (g.held c).length := List.length_pos_iff.mpr h.sections
  have hk := h.counter
  obtain ⟨hbal, hflag⟩ := h.toRunning.left (n := 2) hent h.sections h.interrupts (by omega)
    (Nat.lt_of_succ_lt h.small) h.saved h.window false
  -- inside the idle loop the counter does not reach zero
  have hnot : ¬ Parked { s with cpu := s.cpu.released 2, schedLock := false } := by
    rintro ⟨hid, hon⟩
    have hid' : (s.thr c).idling = true := h.toRunning.idling_eq ▸ hid
    have hwin := h.window hid'
    have hlast : s.cpu.irqDisableCounter ≠ 2 := by omega
    simp [Cpu.released, h.interrupts, hlast] at hon
  have hsettle : g.settle { s with cpu := s.cpu.released 2, schedLock := false } = g.leave c := by
    unfold Nesting.settle
    rw [if_neg hnot]
    exact congrArg g.leave h.toRunning.current_eq
  rw [finishRelease_cpu (by omega), ends_ok]
  refine ⟨c, ?_⟩
  rw [hsettle]
  exact ⟨hbal, hflag⟩

/-- `BeginNewThread` leaves the section that `CreateThreadEx` made up. -/
theorem Locked.begin {s : Sched} {g : Nesting} {c : Nat} (h : Locked s g c) :
    Ends (beginNewThread s c) (Settled g) (Deep 0) := by
  have hlocked : Locked (s.modify c fun th => { th with entered := true }) g c := by
    refine ⟨h.toRunning.modify fun _ => rfl, h.interrupts, h.sections, h.counter, h.small,
      h.saved, ?_, ?_⟩
    · simpa using h.window
    · simp
  by_cases hzero : s.schedPreventCount = 0
  · have heq : beginNewThread s c =
        finishRelease (s.modify c fun th => { th with entered := true }) := by
      unfold beginNewThread finishRelease
      simp only [hzero, decide_true, if_true]
    rw [heq]
    exact hlocked.finish (by simp)
  · have hpos : 1 < s.cpu.irqDisableCounter := by
      have := List.length_pos_iff.mpr h.sections
      have := h.counter
      omega
    unfold beginNewThread releaseSpinlock
    rw [releaseIrqPrevent_cpu (by simp only [Sched.modify]; omega)]
    simp only [hzero, decide_false, Bool.false_eq_true, if_false]
    exact ⟨by simp, by simp⟩

theorem Locked.resumed {s : Sched} {g : Nesting} {c : Nat} (h : Locked s g c) :
    Ends (resume s) (Settled g) (Deep 0) := by
  unfold resume
  rw [h.current]
  show Ends (if (s.thr c).entered then finishRelease s else beginNewThread s c) _ _
  split
  · next hent => exact h.finish hent
  · exact h.begin

/-! ## Switching -/

/-- The current thread as it will be left in `SwitchToThread`. -/
theorem Locked.stop {s : Sched} {g : Nesting} {c : Nat} (h : Locked s g c) {s' : Sched}
    (hcounter : (s'.thr c).irqDisableCounter = s.cpu.irqDisableCounter)
    (hsaved : (s'.thr c).savedInterruptEnabled = s.cpu.savedInterruptEnabled)
    (hid : (s'.thr c).idling = false) (hent : (s'.thr c).entered = (s.thr c).entered) :
    Stopped s' g c :=
  ⟨h.sections, hcounter.trans h.counter, h.small, hsaved.trans h.saved, hid,
    fun he => h.fresh (hent.symm.trans he)⟩

/-- The counter and the flag are exchanged for those of the other thread. -/
theorem Locked.switched {s : Sched} {g : Nesting} {c t : Nat} (h : Locked s g c)
    (hid : (s.thr c).idling = false) (ht : s.live t = true) :
    Locked (runThread s c t) g t := by
  have hlinks : LiveLinks (runThread s c t) := by
    have h0 : LiveLinks { s with currentThread := some t } :=
      ⟨h.links.head, h.links.next, h.links.held⟩
    have h1 := h0.clear t (f := fun th => { th with state := .running, nextReady := none })
      fun _ => rfl
    have h2 := h1.keep c (f := fun th => { th with
      irqDisableCounter := s.cpu.irqDisableCounter
      savedInterruptEnabled := s.cpu.savedInterruptEnabled }) fun _ => rfl
    exact ⟨h2.head, h2.next, h2.held⟩
  by_cases htc : t = c
  · subst htc
    refine ⟨⟨h.init, rfl, ht, fun u hu hut => ?_, hlinks⟩, h.interrupts, h.sections, ?_, h.small,
      ?_, ?_, ?_⟩
    · obtain ⟨h1, h2, h3, h4, h5, h6⟩ := h.others u hu hut
      refine ⟨h1, ?_, h3, ?_, ?_, ?_⟩ <;> simpa [runThread, hut]
    · simpa [runThread] using h.counter
    · simpa [runThread] using h.saved
    · simp [runThread, hid]
    · simpa [runThread] using h.fresh
  · obtain ⟨h1, h2, h3, h4, h5, h6⟩ := h.others t ht htc
    refine ⟨⟨h.init, rfl, ht, fun u hu hut => ?_, hlinks⟩, h.interrupts, h1, ?_, h3, ?_, ?_, ?_⟩
    · by_cases huc : u = c
      · subst huc
        refine h.stop ?_ ?_ ?_ ?_ <;> simp [runThread, hut, hid]
      · obtain ⟨h1, h2, h3, h4, h5, h6⟩ := h.others u hu huc
        refine ⟨h1, ?_, h3, ?_, ?_, ?_⟩ <;> simpa [runThread, hut, huc]
    · simpa [runThread, htc] using h2
    · simpa [runThread, htc] using h4
    · simp [runThread, htc, h5]
    · simpa [runThread, htc] using h6

theorem Locked.found {s : Sched} {g : Nesting} {c t : Nat} (h : Locked s g c)
    (hid : (s.thr c).idling = false) (ht : s.live t = true) :
    Locked (runFound s c t) g t := by
  unfold runFound
  split
  · next htc =>
    subst htc
    exact h.frame (.modify t fun _ => ⟨rfl, rfl, rfl, rfl⟩) (h.links.clear t fun _ => rfl)
  · exact h.switched hid ht

/-- The CPU leaves `sched_lock`, and waits in the section of the caller. -/
theorem Running.parks {s : Sched} {g : Nesting} {c : Nat} (h : Running s g c)
    (hent : (s.thr c).entered = true) (hid : (s.thr c).idling = true) (hsec : g.held c ≠ [])
    (hk : s.cpu.irqDisableCounter = (g.held c).length + 1)
    (hsmall : (g.held c).length + 1 < 4294967296)
    (hsaved : s.cpu.savedInterruptEnabled = g.began c) :
    Ends (idlePark s) (Settled g) (Deep 0) := by
  have hpos : 0 < (g.held c).length := List.length_pos_iff.mpr hsec
  have hrun : Running { s with ogSeq := s.somethingUnblockedSeq } (g.park c) c :=
    ⟨h.init, h.current, h.currentLive,
      fun t ht htc =>
        let ⟨h1, h2, h3, h4, h5, h6⟩ := h.others t ht htc
        ⟨h1, h2, h3, h4, h5, h6⟩,
      ⟨h.links.head, h.links.next, h.links.held⟩⟩
  unfold idlePark releaseSpinlock
  rw [releaseIrqPrevent_cpu (by simp only; omega)]
  refine ⟨c, ?_⟩
  have hparked : Parked { s with
      ogSeq := s.somethingUnblockedSeq, schedLock := false
      cpu := { s.cpu.released 1 with interrupts := true } } :=
    ⟨h.idling_eq.trans hid, rfl⟩
  have hsettle : g.settle { s with
      ogSeq := s.somethingUnblockedSeq, schedLock := false
      cpu := { s.cpu.released 1 with interrupts := true } } = g.park c := by
    unfold Nesting.settle
    rw [if_pos hparked]
    exact congrArg g.park h.current_eq
  show Balanced _ (g.settle { s with
    ogSeq := s.somethingUnblockedSeq, schedLock := false
    cpu := { s.cpu.released 1 with interrupts := true } }) c ∧ _
  rw [hsettle]
  refine ⟨⟨hrun.cpu _ _ _, hent, ?_, Nat.lt_of_succ_lt hsmall, fun _ => hsaved,
    fun _ => Or.inr ⟨hid, rfl⟩, fun _ => ⟨hpos, Nat.le_refl _⟩⟩, fun hend => absurd hend hsec⟩
  simp [Cpu.released, hk, Nesting.park]

/-- How `SwitchToThread` leaves the sections. -/
def Left (g : Nesting) (res : Sched × Control) : Prop :=
  match res.2 with
  | .returned => ∃ c, Locked res.1 g c
  | .parked => Settled g res.1

theorem Locked.pick {s : Sched} {g : Nesting} {c : Nat} (h : Locked s g c)
    (hid : (s.thr c).idling = false) (hent : (s.thr c).entered = true) (fuel : Nat)
    {thr : Option Nat} (hthr : ∀ t, thr = some t → s.live t = true) :
    Ends (pickThread fuel s c thr) (Left g) (Deep 0) := by
  unfold pickThread
  cases thr with
  | some t =>
    simp only
    split
    · exact ⟨t, h.switched hid (hthr t rfl)⟩
    · exact ⟨by simp, by simp⟩
  | none =>
    refine (findNextThread_live h.links fuel).bind ?_
    rintro ⟨s', found⟩ ⟨hsame, hlinks, hlive⟩
    simp only at hsame hlinks hlive
    have h' := h.frame hsame hlinks
    obtain ⟨-, -, hid', hent'⟩ := hsame.thr c
    cases found with
    | some t =>
      refine ⟨t, h'.found (hid'.trans hid) ?_⟩
      rw [hsame.live]
      exact hlive t rfl
    | none =>
      show Ends (if (s'.thr c).state ≠ .blocked then _ else _) _ _
      split
      · exact ⟨by simp, by simp⟩
      · -- the thread is marked, and the CPU waits on its stack
        have hrun := h'.toRunning.modify (f := fun th => { th with idling := true }) fun _ => rfl
        refine Ends.bind (hrun.parks ?_ ?_ h'.sections h'.counter h'.small h'.saved) fun _ h => h
        · simpa using hent'.trans hent
        · simp

theorem Locked.switch {s : Sched} {g : Nesting} {c : Nat} (h : Locked s g c)
    (hid : (s.thr c).idling = false) (hent : (s.thr c).entered = true) (fuel : Nat)
    {thr : Option Nat} (hthr : ∀ t, thr = some t → s.live t = true) :
    Ends (switchToThread fuel s thr) (Left g) (Deep 0) := by
  unfold switchToThread getCurrentThread
  rw [if_neg (by simp [h.init]), h.current]
  split
  · exact ⟨by simp, by simp⟩
  · show Ends (if (s.thr c).state = .running then _ else _) _ _
    split
    · split
      · exact ⟨c, h⟩
      · have hsame := SameNest.queue s c
        obtain ⟨-, -, hid', hent'⟩ := hsame.thr c
        refine (h.frame hsame (h.links.queue h.currentLive)).pick (hid'.trans hid)
          (hent'.trans hent) fuel fun t ht => ?_
        rw [hsame.live]
        exact hthr t ht
    · exact h.pick hid hent fuel hthr

theorem Locked.postponed {s : Sched} {g : Nesting} {c : Nat} (h : Locked s g c)
    (hent : (s.thr c).entered = true) (fuel : Nat) {thr : Option Nat}
    (hthr : ∀ t, thr = some t → s.live t = true) :
    Ends (releasePostponed fuel s thr) (Settled g) (Deep 0) := by
  unfold releasePostponed
  rw [h.toRunning.idling_eq]
  cases hid : (s.thr c).idling with
  | true =>
    cases thr with
    | none => exact h.finish hent
    | some t =>
      have hsame : SameNest s (bumpSeq (addToBackOfReadyQueue s t)) :=
        (SameNest.queue s t).trans ⟨rfl, rfl, rfl, rfl, fun _ => ⟨rfl, rfl, rfl, rfl⟩⟩
      have hqueue := h.links.queue (hthr t rfl)
      exact (h.frame hsame ⟨hqueue.head, hqueue.next, hqueue.held⟩).finish
        ((hsame.thr c).2.2.2.trans hent)
  | false =>
    refine (h.switch hid hent fuel hthr).bind ?_
    rintro ⟨s', control⟩ hleft
    cases control with
    | parked => exact hleft
    | returned =>
      obtain ⟨c', h'⟩ := hleft
      exact h'.resumed

/-! ## The calls -/

/-- `AcquireSpinlock(&sched_lock)` inside a section. -/
theorem Balanced.lock {s : Sched} {g : Nesting} {c : Nat} (h : Balanced s g c)
    (hin : Inner s g c) (hlt : s.cpu.irqDisableCounter + 1 < 4294967296) (prevent : Int) :
    Locked { s with cpu := s.cpu.acquired, schedLock := true, schedPreventCount := prevent } g
      c := by
  have hk := h.counter
  have hpos : 0 < (g.held c).length := List.length_pos_iff.mpr hin.1
  refine ⟨h.toRunning.cpu _ _ _, rfl, hin.1, ?_, by omega, ?_, fun hid => ?_, fun he => ?_⟩
  · simp [Cpu.acquired, hk]
  · have hne : s.cpu.irqDisableCounter ≠ 0 := by omega
    simp [Cpu.acquired, hne, h.saved hin.1]
  · exact ⟨(h.window hid).1, hin.2 hid⟩
  · have hent := h.entered
    simp only at he
    simp [he] at hent

/-- `ReleaseScheduler` ends the innermost section, on this stack or after a switch. -/
theorem Balanced.release {s : Sched} {g : Nesting} {c : Nat} (h : Balanced s g c)
    (hin : Inner s g c) (fuel : Nat) :
    Ends (releaseScheduler fuel s) (Settled g) (Deep ((g.held c).length + 1)) := by
  have hk := h.counter
  have hsmall := h.small
  unfold releaseScheduler
  rw [hin.interrupts h, if_neg (by simp)]
  refine ((acquireSpinlock_cpu (by omega)).mono (fun _ h => h)
    (fun e he => he.mono (by omega))).bind ?_
  rintro _ ⟨rfl, hlt⟩
  have hlock := h.lock hin hlt (s.schedPreventCount - 1)
  show Ends (if s.schedPreventCount - 1 = 0 ∧ s.schedPostponed = true then _ else _) _ _
  split
  · have hlock' : Locked { s with
        cpu := s.cpu.acquired, schedLock := true, schedPreventCount := s.schedPreventCount - 1
        schedPostponed := false, schedPostponedThr := none } g c :=
      hlock.frame ⟨rfl, rfl, rfl, rfl, fun _ => ⟨rfl, rfl, rfl, rfl⟩⟩
        ⟨h.links.head, h.links.next, by simp⟩
    exact (hlock'.postponed h.entered fuel h.links.held).mono (fun _ h => h)
      (fun e he => he.mono (Nat.zero_le _))
  · exact (hlock.finish h.entered).mono (fun _ h => h) (fun e he => he.mono (Nat.zero_le _))

/-- A call that takes the scheduler, changes something else, and releases it. -/
theorem Balanced.within {s : Sched} {g : Nesting} {c : Nat} (h : Balanced s g c)
    {f : Sched → Except Halt Sched}
    (hf : ∀ s1, s1.live = s.live → LiveLinks s1 →
      Ends (f s1) (fun s2 => SameNest s1 s2 ∧ LiveLinks s2) (Deep 0)) (fuel : Nat) :
    Ends (do let s1 ← acquireScheduler s; let s2 ← f s1; releaseScheduler fuel s2)
      (Settled (g.enter c s.cpu.interrupts .scheduler)) (Deep ((g.held c).length + 2)) := by
  have hk := h.counter
  have hsmall := h.small
  refine ((acquireScheduler_cpu (by omega)).mono (fun _ h => h)
    (fun e he => he.mono (by omega))).bind ?_
  rintro _ ⟨rfl, hlt⟩
  have h1 := h.enter hlt .scheduler false (s.schedPreventCount + 1)
  have h2 := hf { s with
    cpu := s.cpu.acquired, schedLock := false
    schedPreventCount := s.schedPreventCount + 1 } rfl h1.links
  refine (h2.mono (fun _ h => h) (fun e he => he.mono (Nat.zero_le _))).bind ?_
  rintro s2 ⟨hsame, hlinks⟩
  refine ((h1.frame hsame hlinks).release (h.enter_inner .scheduler s2 (hsame.thr c).2.2.1)
    fuel).mono (fun _ h => h) (fun e he => he.mono ?_)
  simp [g.enter_held]

end Nolrem.Task
