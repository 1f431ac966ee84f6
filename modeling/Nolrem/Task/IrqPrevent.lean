import Nolrem.Task.Nesting

/-!
# `AcquireIrqPrevent` in every run

The calls of one CPU with the sections that they begin and end. A section is ended by the
thread that began it, the innermost first; an interrupt returns when its handler has ended
its own sections.
-/

namespace Nolrem.Task

open Nolrem.Lib

/-! ## The other calls -/

theorem shouldPreempt_deep (s : Sched) (t : Nat) :
    Ends (shouldPreempt s t) (fun _ => True) (Deep 0) := by
  unfold shouldPreempt getCurrentThread
  split
  · trivial
  · cases s.currentThread with
    | none => exact ⟨by simp, by simp⟩
    | some c =>
      show Ends (if (s.thr c).state ≠ .running then _ else _) _ _
      split
      · trivial
      · split <;> trivial

theorem postpone_nest {s : Sched} {t : Nat} (h : LiveLinks s) (ht : s.live t = true) :
    SameNest s (postpone s t) ∧ LiveLinks (postpone s t) := by
  have hp : LiveLinks { s with schedPostponed := true } := ⟨h.head, h.next, h.held⟩
  have hsame : SameNest s { s with schedPostponed := true } :=
    ⟨rfl, rfl, rfl, rfl, fun _ => ⟨rfl, rfl, rfl, rfl⟩⟩
  unfold postpone
  split
  · exact ⟨⟨rfl, rfl, rfl, rfl, fun _ => ⟨rfl, rfl, rfl, rfl⟩⟩, h.head, h.next,
      fun u hu => Option.some.inj hu ▸ ht⟩
  · next p hheld =>
    split
    · have hqueue := SameNest.queue { s with schedPostponed := true } p
      have hlinks := hp.queue (h.held p hheld)
      refine ⟨hsame.trans (hqueue.trans ⟨rfl, rfl, rfl, rfl, fun _ => ⟨rfl, rfl, rfl, rfl⟩⟩),
        hlinks.head, hlinks.next, fun u hu => ?_⟩
      have hlive : (addToBackOfReadyQueue { s with schedPostponed := true } p).live t = true := by
        rw [hqueue.live]
        exact ht
      exact Option.some.inj hu ▸ hlive
    · exact ⟨hsame.trans (.queue _ t), hp.queue ht⟩

/-- `UnblockThread` begins and ends no section. -/
theorem unblockThread_nest {s : Sched} {t : Nat} (h : LiveLinks s) (ht : s.live t = true) :
    Ends (unblockThread s t) (fun s' => SameNest s s' ∧ LiveLinks s') (Deep 0) := by
  have hsame : SameNest s (s.modify t fun th => { th with nextReady := none, state := .ready }) :=
    .modify t fun _ => ⟨rfl, rfl, rfl, rfl⟩
  have hlinks : LiveLinks (s.modify t fun th => { th with nextReady := none, state := .ready }) :=
    h.clear t fun _ => rfl
  have hbump : ∀ s', SameNest s s' ∧ LiveLinks s' →
      SameNest s (bumpSeq s') ∧ LiveLinks (bumpSeq s') := fun s' hs' =>
    ⟨hs'.1.trans ⟨rfl, rfl, rfl, rfl, fun _ => ⟨rfl, rfl, rfl, rfl⟩⟩,
      hs'.2.head, hs'.2.next, hs'.2.held⟩
  unfold unblockThread
  simp only
  split
  · exact hbump _ ⟨hsame, hlinks⟩
  · refine (shouldPreempt_deep _ t).bind fun preempt _ => ?_
    split
    · obtain ⟨h1, h2⟩ := postpone_nest hlinks ht
      exact hbump _ ⟨hsame.trans h1, h2⟩
    · exact hbump _ ⟨hsame.trans (.queue _ t), hlinks.queue ht⟩

theorem Balanced.schedule {s : Sched} {g : Nesting} {c : Nat} (h : Balanced s g c)
    (fuel : Nat) : Ends (schedule fuel s)
      (Settled (g.enter c s.cpu.interrupts .scheduler)) (Deep ((g.held c).length + 2)) :=
  h.within (f := fun s1 => .ok { s1 with schedPostponed := true })
    (fun _ _ hl => ⟨⟨rfl, rfl, rfl, rfl, fun _ => ⟨rfl, rfl, rfl, rfl⟩⟩,
      hl.head, hl.next, hl.held⟩) fuel

theorem Balanced.block {s : Sched} {g : Nesting} {c : Nat} (h : Balanced s g c)
    (fuel : Nat) : Ends (blockThread fuel s)
      (Settled (g.enter c s.cpu.interrupts .scheduler)) (Deep ((g.held c).length + 2)) := by
  have hsame : SameNest s (s.modify c fun th => { th with state := .blocked }) :=
    .modify c fun _ => ⟨rfl, rfl, rfl, rfl⟩
  have hlinks : LiveLinks (s.modify c fun th => { th with state := .blocked }) :=
    h.links.keep c fun _ => rfl
  unfold blockThread
  refine (getCurrentThread_spec h.current).bind ?_
  rintro _ rfl
  exact (h.frame hsame hlinks).schedule fuel

theorem Balanced.setPriority {s : Sched} {g : Nesting} {c : Nat} (h : Balanced s g c)
    (fuel t priority : Nat) : Ends (setThreadPriority fuel s t priority)
      (Settled (g.enter c s.cpu.interrupts .scheduler)) (Deep ((g.held c).length + 2)) :=
  h.within (f := fun s1 => .ok (s1.modify t fun th => { th with priority := priority }))
    (fun _ _ hl => ⟨.modify t fun _ => ⟨rfl, rfl, rfl, rfl⟩,
      hl.keep t fun _ => rfl⟩) fuel

/-- `CreateThreadEx` gives the new thread the count that `BeginNewThread` takes off. -/
theorem Balanced.create {s : Sched} {g : Nesting} {c t : Nat} (h : Balanced s g c)
    (ht : s.live t = false) (fuel : Nat) : Ends (createThread fuel s t true)
      (Settled ((g.create t).enter c s.cpu.interrupts .scheduler))
      (Deep ((g.held c).length + 2)) := by
  have hct : c ≠ t := by
    rintro rfl
    simp [h.currentLive] at ht
  have hheld : (g.create t).held c = g.held c := by simp [Nesting.create, hct]
  have hbegan : (g.create t).began c = g.began c := by simp [Nesting.create, hct]
  have hnew : Balanced { s.modify t fun th => newThread th true with
      live := Function.update s.live t true } (g.create t) c := by
    refine ⟨⟨h.init, h.current, by simp [h.currentLive, hct], fun u hu huc => ?_, ?_⟩, ?_, ?_,
      ?_, ?_, ?_, ?_⟩
    · by_cases hut : u = t
      · subst hut
        constructor <;> simp [Nesting.create, newThread]
      · have hlive : s.live u = true := by simpa [hut] using hu
        obtain ⟨h1, h2, h3, h4, h5, h6⟩ := h.others u hlive huc
        constructor <;> simpa [Nesting.create, hut]
    · refine ⟨fun u hu => ?_, fun v u hv hu => ?_, fun u hu => ?_⟩
      · by_cases hut : u = t
        · simp [hut]
        · simpa [hut] using h.links.head u hu
      · by_cases hvt : v = t
        · subst hvt
          simp [newThread] at hu
        · by_cases hut : u = t
          · simp [hut]
          · simpa [hut] using h.links.next v u (by simpa [hvt] using hv) (by simpa [hvt] using hu)
      · by_cases hut : u = t
        · simp [hut]
        · simpa [hut] using h.links.held u hu
    · simpa [hct] using h.entered
    · rw [hheld]
      exact h.counter
    · rw [hheld]
      exact h.small
    · rw [hheld, hbegan]
      exact h.saved
    · rw [hheld]
      simpa [Nesting.create, hct] using h.off
    · rw [hheld]
      simpa [Nesting.create, hct] using h.window
  have hwithin := hnew.within (f := fun s1 => unblockThread s1 t)
    (fun s1 hlive hl => unblockThread_nest hl (by simp [hlive])) fuel
  rw [hheld] at hwithin
  exact hwithin

/-- The idle loop resumes its thread, switches to another one, or parks again. -/
theorem Balanced.wake {s : Sched} {g : Nesting} {c : Nat} (h : Balanced s g c)
    (hp : Parked s) (fuel : Nat) :
    Ends (idleWake fuel s) (Settled g) (Deep ((g.held c).length + 1)) := by
  have hid : (s.thr c).idling = true := by
    rw [← h.toRunning.idling_eq]
    exact hp.1
  have hwin := h.window hid
  have hsec : g.held c ≠ [] := List.length_pos_iff.mp (by omega)
  have hk := h.counter
  have hsmall := h.small
  unfold idleWake
  refine (getCurrentThread_spec h.current).bind ?_
  rintro _ rfl
  refine Ends.bind ((acquireSpinlock_cpu (by simp only; omega)).mono (fun _ h => h)
    (fun e he => he.mono (by simp only; omega))) ?_
  rintro _ ⟨rfl, hlt⟩
  simp only at hlt
  set s1 : Sched := { s with
    cpu := { s.cpu with interrupts := false }.acquired, schedLock := true } with hs1
  have hrun : Running s1 g c := h.toRunning.cpu _ _ _
  have hcounter : s1.cpu.irqDisableCounter = (g.held c).length + 1 := by
    simp [hs1, Cpu.acquired, hk]
  have hsaved : s1.cpu.savedInterruptEnabled = g.began c := by
    have hne : s.cpu.irqDisableCounter ≠ 0 := by omega
    simp [hs1, Cpu.acquired, hne, h.saved hsec]
  -- after the loop the thread is as if it had not parked
  have hlocked : ∀ s2, SameNest s1 s2 → LiveLinks s2 →
      Locked (s2.modify c fun th => { th with idling := false }) g c := by
    intro s2 hsame hlinks
    have hrun2 := hrun.frame hsame hlinks
    obtain ⟨-, -, -, hent⟩ := hsame.thr c
    refine ⟨hrun2.modify fun _ => rfl, ?_, hsec, ?_, by omega, ?_, ?_, ?_⟩
    · exact congrArg Cpu.interrupts hsame.cpu
    · exact (congrArg Cpu.irqDisableCounter hsame.cpu).trans hcounter
    · exact (congrArg Cpu.savedInterruptEnabled hsame.cpu).trans hsaved
    · simp
    · have hent' : (s2.thr c).entered = true := hent.trans h.entered
      simp [hent']
  show Ends (if (s1.thr c).state = .ready then _ else _) _ _
  split
  · have hfound := (hlocked s1 (.refl s1) hrun.links).found (t := c) (by simp) h.currentLive
    exact hfound.resumed.mono (fun _ h => h) (fun e he => he.mono (Nat.zero_le _))
  · refine Ends.bind ((findNextThread_live hrun.links fuel).mono (fun _ h => h)
      (fun e he => he.mono (Nat.zero_le _))) ?_
    rintro ⟨s2, found⟩ ⟨hsame, hlinks, hlive⟩
    simp only at hsame hlinks hlive
    cases found with
    | none =>
      obtain ⟨-, -, hid2, hent2⟩ := hsame.thr c
      have hcpu := hsame.cpu
      refine Ends.mono ((hrun.frame hsame hlinks).parks (hent2.trans h.entered) (hid2.trans hid)
        hsec ?_ (by omega) ?_) (fun _ h => h) (fun e he => he.mono (Nat.zero_le _))
      · rw [hcpu]
        exact hcounter
      · rw [hcpu]
        exact hsaved
    | some t =>
      have hlive2 : s2.live t = true := by
        rw [hsame.live]
        exact hlive t rfl
      have hfound := (hlocked s2 hsame hlinks).found (t := t) (by simp) hlive2
      exact hfound.resumed.mono (fun _ h => h) (fun e he => he.mono (Nat.zero_le _))

/-! ## The machine -/

/-- The calls that begin and end sections, and the other events of the scheduler. -/
inductive Call where
  | acquireIrqPrevent
  | releaseIrqPrevent
  | acquireSpinlock (lock : Nat)
  | releaseSpinlock (lock : Nat)
  | event (e : Event)
deriving DecidableEq, Repr

/-- The scheduler, the other spinlocks, and the sections of the threads. -/
structure Machine where
  sched : Sched
  lock : Nat → Bool
  nest : Nesting

/-- What the kernel does. -/
def perform (fuel : Nat) (s : Sched) (lock : Nat → Bool) :
    Call → Except Halt (Sched × (Nat → Bool))
  | .acquireIrqPrevent => do
    let s ← acquireIrqPrevent s
    .ok (s, lock)
  | .releaseIrqPrevent => do
    let s ← releaseIrqPrevent s
    .ok (s, lock)
  | .acquireSpinlock l => do
    let s ← acquireIrqPrevent s
    if lock l then .error .spins else .ok (s, Function.update lock l true)
  | .releaseSpinlock l => do
    let s ← releaseIrqPrevent s
    .ok (s, Function.update lock l false)
  | .event e => do
    let s ← run fuel s e
    .ok (s, lock)

/-- The sections after a call that led from `s` to `s'`. -/
def Nesting.after (g : Nesting) (s s' : Sched) : Call → Nesting
  | .acquireIrqPrevent => g.enter s.current s.cpu.interrupts .irqPrevent
  | .acquireSpinlock l => g.enter s.current s.cpu.interrupts (.spinlock l)
  | .event .acquireScheduler => g.enter s.current s.cpu.interrupts .scheduler
  | .releaseIrqPrevent | .releaseSpinlock _ => g.leave s.current
  | .event .releaseScheduler | .event .idleWake => g.settle s'
  | .event .schedule | .event .blockThread | .event (.setThreadPriority _ _) =>
    (g.enter s.current s.cpu.interrupts .scheduler).settle s'
  | .event (.createThread t) =>
    ((g.create t).enter s.current s.cpu.interrupts .scheduler).settle s'
  | .event (.unblockThread _) | .event (.setAffinity _ _) | .event .irqEnter
  | .event .irqExit => g

namespace Machine

def run (fuel : Nat) (m : Machine) (e : Call) : Except Halt Machine := do
  let (s, lock) ← perform fuel m.sched m.lock e
  .ok { sched := s, lock := lock, nest := m.nest.after m.sched s e }

/-- The sections that the current thread is in. -/
def sections (m : Machine) : List Bracket := m.nest.held m.sched.current

/-- The CPU is in the loop of `IdleUntilRunnable`, and a handler there is in no section. -/
def InWindow (m : Machine) : Prop :=
  isCurrentThreadIdling m.sched = true ∧ m.sections.length = m.nest.parked

/-- The current thread, or the handler on its stack, is to end `b` next. -/
def Innermost (m : Machine) (b : Bracket) : Prop := m.sections.head? = some b ∧ ¬ m.InWindow

instance (m : Machine) : Decidable m.InWindow := inferInstanceAs (Decidable (_ ∧ _))

instance (m : Machine) (b : Bracket) : Decidable (m.Innermost b) :=
  inferInstanceAs (Decidable (_ ∧ _))

/--
When a call can be made. Only the innermost section is ended, and what runs when an
interrupt returns is what ran when it came: code outside sections, or the idle loop.
-/
def Allowed (m : Machine) : Call → Prop
  | .acquireIrqPrevent | .acquireSpinlock _ | .event .acquireScheduler | .event .schedule
  | .event .blockThread => ¬ Parked m.sched
  | .releaseIrqPrevent => m.Innermost .irqPrevent
  | .releaseSpinlock l => m.Innermost (.spinlock l)
  | .event .releaseScheduler => m.Innermost .scheduler
  | .event (.unblockThread t) | .event (.setThreadPriority t _) | .event (.setAffinity t _) =>
    ¬ Parked m.sched ∧ m.sched.live t = true
  | .event (.createThread t) => ¬ Parked m.sched ∧ m.sched.live t = false
  | .event .irqEnter => m.sched.cpu.interrupts = true
  | .event .irqExit => m.sections = [] ∨ m.InWindow
  | .event .idleWake => Parked m.sched

instance (m : Machine) (e : Call) : Decidable (m.Allowed e) :=
  match e with
  | .acquireIrqPrevent | .acquireSpinlock _ | .event .acquireScheduler | .event .schedule
  | .event .blockThread => inferInstanceAs (Decidable (¬ _))
  | .releaseIrqPrevent | .releaseSpinlock _ | .event .releaseScheduler =>
    inferInstanceAs (Decidable (m.Innermost _))
  | .event (.unblockThread _) | .event (.setThreadPriority _ _) | .event (.setAffinity _ _)
  | .event (.createThread _) => inferInstanceAs (Decidable (_ ∧ _))
  | .event .irqEnter => inferInstanceAs (Decidable (m.sched.cpu.interrupts = true))
  | .event .irqExit => inferInstanceAs (Decidable (_ ∨ _))
  | .event .idleWake => inferInstanceAs (Decidable (Parked m.sched))

/-- A step of the machine. -/
def Step (m m' : Machine) : Prop := ∃ e fuel, m.Allowed e ∧ m.run fuel e = .ok m'

/-- The machine after `InitScheduler`, in no section. -/
def start (s : Sched) : Machine where
  sched := s
  lock := fun _ => false
  nest := { held := fun _ => [], began := fun _ => true, parked := 0 }

end Machine

namespace Call

/-- The calls that end a section, on this stack or on another. -/
def ends : Call → Bool
  | .releaseIrqPrevent | .releaseSpinlock _ | .event .releaseScheduler | .event .schedule
  | .event .blockThread | .event (.createThread _) | .event (.setThreadPriority _ _)
  | .event .idleWake => true
  | _ => false

/-- How many sections the call is in at most, `sched_lock` included. -/
def begins : Call → Nat
  | .acquireIrqPrevent | .acquireSpinlock _ | .event .releaseScheduler | .event .idleWake => 1
  | .event .acquireScheduler | .event .schedule | .event .blockThread | .event (.createThread _)
  | .event (.setThreadPriority _ _) => 2
  | _ => 0

end Call

/-! ## One call -/

theorem Balanced.sections_eq {m : Machine} {c : Nat} (h : Balanced m.sched m.nest c) :
    m.sections = m.nest.held c := by
  unfold Machine.sections
  rw [h.toRunning.current_eq]

/-- The innermost section of a thread that idles was begun by a handler in the idle loop. -/
theorem Machine.Innermost.inner {m : Machine} {b : Bracket} {c : Nat} (hin : m.Innermost b)
    (h : Balanced m.sched m.nest c) : Inner m.sched m.nest c := by
  obtain ⟨hhead, hwindow⟩ := hin
  unfold Machine.InWindow at hwindow
  rw [h.sections_eq] at hhead hwindow
  refine ⟨fun hnil => by simp [hnil] at hhead, fun hid => ?_⟩
  have hle := (h.window hid).2
  rw [← h.toRunning.idling_eq] at hid
  exact Nat.lt_of_le_of_ne hle fun heq => hwindow ⟨hid, heq.symm⟩

/-- What one call leaves: when it has ended the outermost section, the flag is restored. -/
def Restored (e : Call) (m : Machine) : Prop :=
  ∃ c, Balanced m.sched m.nest c ∧
    (e.ends = true → m.nest.held c = [] → m.sched.cpu.interrupts = m.nest.began c)

theorem Settled.restored {g : Nesting} {s : Sched} {lock : Nat → Bool} (h : Settled g s)
    (e : Call) : Restored e ⟨s, lock, g.settle s⟩ := by
  obtain ⟨c, hbal, hflag⟩ := h
  exact ⟨c, hbal, fun _ => hflag⟩

theorem Balanced.acquire {s : Sched} {g : Nesting} {c : Nat} (h : Balanced s g c)
    (b : Bracket) : Ends (acquireIrqPrevent s)
      (fun s' => Balanced s' (g.enter c s.cpu.interrupts b) c)
      (Deep ((g.held c).length + 1)) := by
  have hk := h.counter
  have hsmall := h.small
  refine (acquireIrqPrevent_cpu (by omega)).mono ?_ (fun e he => he.mono (by omega))
  rintro _ ⟨rfl, hlt⟩
  exact h.enter hlt b s.schedLock s.schedPreventCount

theorem Balanced.interrupts {s : Sched} {g : Nesting} {c : Nat} (h : Balanced s g c)
    (flag : Bool)
    (hoff : g.held c ≠ [] →
      flag = false ∨ (s.thr c).idling = true ∧ (g.held c).length = g.parked) :
    Balanced { s with cpu.interrupts := flag } g c :=
  ⟨h.toRunning.cpu _ s.schedLock s.schedPreventCount, h.entered, h.counter, h.small, h.saved,
    hoff, h.window⟩

/-- The calls of the scheduler. -/
theorem event_spec {s : Sched} {g : Nesting} {c : Nat} (lock : Nat → Bool)
    (h : Balanced s g c) {e : Event} (he : Machine.Allowed ⟨s, lock, g⟩ (.event e))
    (fuel : Nat) :
    Ends (run fuel s e) (fun s' => Restored (.event e) ⟨s', lock, g.after s s' (.event e)⟩)
      (Deep ((g.held c).length + Call.begins (.event e))) := by
  obtain rfl : s.current = c := h.toRunning.current_eq
  have hquiet : ∀ s', Balanced s' g s.current → Call.ends (.event e) = false →
      Restored (.event e) ⟨s', lock, g⟩ :=
    fun s' hs' hends => ⟨_, hs', fun hend => by simp [hends] at hend⟩
  cases e with
  | acquireScheduler =>
    have hk := h.counter
    have hsmall := h.small
    refine (acquireScheduler_cpu (by omega)).mono ?_
      (fun e he => he.mono (by simp [Call.begins, hk]))
    rintro _ ⟨rfl, hlt⟩
    exact ⟨s.current, h.enter hlt .scheduler false _, fun hend => by simp [Call.ends] at hend⟩
  | releaseScheduler =>
    have hin : Inner s g s.current :=
      Machine.Innermost.inner (m := ⟨s, lock, g⟩) (b := .scheduler) he h
    exact (h.release hin fuel).mono (fun _ hs' => hs'.restored _) (fun _ h => h)
  | schedule => exact (h.schedule fuel).mono (fun _ hs' => hs'.restored _) (fun _ h => h)
  | blockThread => exact (h.block fuel).mono (fun _ hs' => hs'.restored _) (fun _ h => h)
  | setThreadPriority t priority =>
    exact (h.setPriority fuel t priority).mono (fun _ hs' => hs'.restored _) (fun _ h => h)
  | createThread t =>
    exact (h.create he.2 fuel).mono (fun _ hs' => hs'.restored _) (fun _ h => h)
  | idleWake => exact (h.wake he fuel).mono (fun _ hs' => hs'.restored _) (fun _ h => h)
  | unblockThread t =>
    refine (unblockThread_nest h.links he.2).mono ?_ (fun e he => he.mono (Nat.zero_le _))
    rintro s' ⟨hsame, hlinks⟩
    exact hquiet s' (h.frame hsame hlinks) rfl
  | setAffinity t mask =>
    have hsame : SameNest s (s.modify t fun th => { th with affinityBitmask := mask }) :=
      .modify t fun _ => ⟨rfl, rfl, rfl, rfl⟩
    exact hquiet _ (h.frame hsame (h.links.keep t fun _ => rfl)) rfl
  | irqEnter => exact hquiet _ (h.interrupts false fun _ => Or.inl rfl) rfl
  | irqExit =>
    refine hquiet _ (h.interrupts true fun hsec => Or.inr ?_) rfl
    rcases he with hnil | ⟨hid, hlen⟩
    · exact absurd hnil hsec
    · exact ⟨h.toRunning.idling_eq ▸ hid, hlen⟩

theorem perform_spec {s : Sched} {g : Nesting} {c : Nat} (lock : Nat → Bool)
    (h : Balanced s g c) {e : Call} (he : Machine.Allowed ⟨s, lock, g⟩ e) (fuel : Nat) :
    Ends (perform fuel s lock e)
      (fun res => Restored e ⟨res.1, res.2, g.after s res.1 e⟩)
      (Deep ((g.held c).length + e.begins)) := by
  obtain rfl : s.current = c := h.toRunning.current_eq
  cases e with
  | acquireIrqPrevent =>
    refine (h.acquire .irqPrevent).bind fun s' hs' => ?_
    exact ⟨s.current, hs', fun hend => by simp [Call.ends] at hend⟩
  | acquireSpinlock l =>
    refine (h.acquire (.spinlock l)).bind fun s' hs' => ?_
    split
    · exact ⟨by simp, by simp⟩
    · exact ⟨s.current, hs', fun hend => by simp [Call.ends] at hend⟩
  | releaseIrqPrevent =>
    have hin := Machine.Innermost.inner (m := ⟨s, lock, g⟩) (b := .irqPrevent) he h
    obtain ⟨s', hs', hbal, hflag⟩ := h.leave hin
    show Ends (releaseIrqPrevent s >>= _) _ _
    rw [hs']
    exact ⟨s.current, hbal, fun _ => hflag⟩
  | releaseSpinlock l =>
    have hin := Machine.Innermost.inner (m := ⟨s, lock, g⟩) (b := .spinlock l) he h
    obtain ⟨s', hs', hbal, hflag⟩ := h.leave hin
    show Ends (releaseIrqPrevent s >>= _) _ _
    rw [hs']
    exact ⟨s.current, hbal, fun _ => hflag⟩
  | event e => exact (event_spec lock h he fuel).bind fun _ hs' => hs'

theorem Machine.run_spec {m : Machine} {c : Nat} (h : Balanced m.sched m.nest c) {e : Call}
    (he : m.Allowed e) (fuel : Nat) :
    Ends (m.run fuel e) (Restored e) (Deep ((m.nest.held c).length + e.begins)) :=
  (perform_spec m.lock h he fuel).bind fun _ hres => hres

/-! ## The start -/

theorem booted_balanced {s : Sched} (h : Booted s) :
    ∃ c, Balanced s (Machine.start s).nest c := by
  obtain ⟨boot, fuel, t, hb, hs⟩ := h
  suffices Ends (initScheduler fuel boot t)
      (fun s => ∃ c, Balanced s (Machine.start s).nest c) (fun _ => True) from this.of_ok hs
  unfold initScheduler
  refine (createThread_boot_entered hb fuel t).bind ?_
  rintro s1 ⟨h1, hent⟩
  obtain ⟨hhead, hnext⟩ := chain_cons.mp h1.linked.chain
  have hlinks : LiveLinks { s1 with schedInit := true } := by
    refine ⟨fun u hu => ?_, fun v u hv hu => ?_, fun u hu => ?_⟩
    · exact (h1.live u).mpr (Option.some.inj (hu.symm.trans hhead))
    · obtain rfl := (h1.live v).mp hv
      rw [chain_nil] at hnext
      have hu' : (s1.thr v).nextReady = some u := hu
      simp [hnext] at hu'
    · simp [h1.held] at hu
  unfold setupInitialThread
  refine ((findNextThread_live hlinks fuel).mono (fun _ h => h) (fun _ _ => trivial)).bind ?_
  rintro ⟨s2, found⟩ ⟨hsame, hlinks2, hlive⟩
  cases found with
  | none => trivial
  | some u =>
    obtain rfl : u = t := (h1.live u).mp (hlive u rfl)
    obtain ⟨-, -, hid, hent2⟩ := hsame.thr u
    have hcpu := hsame.cpu
    have hlinks3 : LiveLinks { s2 with currentThread := some u } :=
      ⟨hlinks2.head, hlinks2.next, hlinks2.held⟩
    -- the first thread runs, and there is no other
    refine ⟨u, ⟨hsame.init, rfl, ?_, fun v hv hvu => ?_,
      hlinks3.keep u fun _ => rfl⟩, ?_, ?_, by simp [Machine.start],
      fun hne => absurd rfl hne, fun hne => absurd rfl hne, fun hidle => ?_⟩
    · show s2.live u = true
      rw [hsame.live]
      exact hlive u rfl
    · have hv1 : s1.live v = true := by
        rw [← congrFun hsame.live v]
        exact hv
      exact absurd ((h1.live v).mp hv1) hvu
    · simpa using hent2.trans hent
    · show s2.cpu.irqDisableCounter = 0
      rw [hcpu]
      exact h1.cpu
    · have hidle2 : (s2.thr u).idling = true := by simpa using hidle
      rw [hid, h1.idling] at hidle2
      cases hidle2

/-! ## Every run -/

theorem reaches_balanced {s₀ : Sched} (h0 : Booted s₀) {m : Machine}
    (hr : Reaches Machine.Step (Machine.start s₀) m) : ∃ c, Balanced m.sched m.nest c := by
  refine hr.invariant (P := fun m => ∃ c, Balanced m.sched m.nest c) (booted_balanced h0) ?_
  rintro a b ⟨c, ha⟩ ⟨e, fuel, he, hrun⟩
  obtain ⟨c', hb, -⟩ := (Machine.run_spec ha he fuel).of_ok hrun
  exact ⟨c', hb⟩

/--
**Sections nest.** In every state that can be reached the counter is the number of sections
that the current thread is in; while it is positive interrupts are off, but for the loop of
`IdleUntilRunnable`; and a thread that has not started is in one section, which began with
interrupts on. No call takes the counter below zero, it runs over only when 2^32 sections
would be open at once, and when a call ends the outermost section of the thread that it
leaves the CPU to, the interrupt flag is what it was when that section began.
-/
theorem irq_prevent_balanced {s₀ : Sched} (h0 : Booted s₀) {m : Machine}
    (hr : Reaches Machine.Step (Machine.start s₀) m) :
    m.sched.cpu.irqDisableCounter = m.sections.length ∧
    (0 < m.sched.cpu.irqDisableCounter → m.sched.cpu.interrupts = false ∨ m.InWindow) ∧
    (∀ t, m.sched.live t = true → (m.sched.thr t).entered = false →
      m.nest.held t = [.scheduler] ∧ m.nest.began t = true) ∧
    ∀ e, m.Allowed e → ∀ fuel,
      (∀ h, m.run fuel e = .error h → h ≠ .irqCounterZero ∧
        (h = .irqCounterWrapped → 4294967296 ≤ m.sections.length + e.begins)) ∧
      ∀ m', m.run fuel e = .ok m' → e.ends = true → m'.sections = [] →
        m'.sched.cpu.interrupts = m'.nest.began m'.sched.current := by
  obtain ⟨c, h⟩ := reaches_balanced h0 hr
  have hsec := h.sections_eq
  refine ⟨?_, fun hpos => ?_, fun t ht hent => ?_, fun e he fuel => ⟨fun x hx => ?_,
    fun m' hm' hends hnil => ?_⟩⟩
  · rw [hsec]
    exact h.counter
  · rw [h.counter] at hpos
    refine (h.off (List.length_pos_iff.mp hpos)).imp_right ?_
    rintro ⟨hid, hlen⟩
    exact ⟨h.toRunning.idling_eq.trans hid, hsec.symm ▸ hlen⟩
  · have htc : t ≠ c := by
      rintro rfl
      simp [h.entered] at hent
    exact (h.others t ht htc).fresh hent
  · rw [hsec]
    exact (Machine.run_spec h he fuel).of_error hx
  · obtain ⟨c', h', hflag⟩ := (Machine.run_spec h he fuel).of_ok hm'
    rw [h'.sections_eq] at hnil
    rw [h'.toRunning.current_eq]
    exact hflag hends hnil

/--
The first thread creates a second one, which starts with interrupts on; a timer interrupt
goes back to the first, whose section began with interrupts off.
-/
theorem irq_prevent_balanced_two : ∃ s₀ m, Booted s₀ ∧
    Reaches Machine.Step (Machine.start s₀) m ∧ m.sched.current = 1 ∧
    m.sched.cpu.interrupts = false ∧ m.nest.began 1 = true ∧
    m.sched.cpu.irqDisableCounter = m.sections.length ∧
    ∃ m', m.run 1 (.event .schedule) = .ok m' ∧ m'.sched.current = 0 ∧
      m'.sched.cpu.interrupts = m'.nest.began m'.sched.current := by
  have hrun : ∃ s₀ m, Booted s₀ ∧ Reaches Machine.Step (Machine.start s₀) m ∧
      m.sched.current = 1 ∧ m.sched.cpu.interrupts = false ∧ m.nest.began 1 = true ∧
      m.Allowed (.event .schedule) ∧
      ∃ m', m.run 1 (.event .schedule) = .ok m' ∧ m'.sched.current = 0 ∧ m'.sections = [] := by
    refine ⟨_, _, ⟨bootState, 2, 0, bootState_fresh, rfl⟩,
      (Relation.ReflTransGen.refl.tail
        ⟨.event (.createThread 1), 1, by decide, rfl⟩).tail
        ⟨.event .irqEnter, 1, by decide, rfl⟩, ?_, ?_, ?_, ?_, _, rfl, ?_, ?_⟩ <;> decide
  obtain ⟨s₀, m, h0, hr, hcurrent, hoff, hbegan, hallowed, m', hm', hcurrent', hnil⟩ := hrun
  refine ⟨s₀, m, h0, hr, hcurrent, hoff, hbegan, (irq_prevent_balanced h0 hr).1, m', hm',
    hcurrent', ?_⟩
  exact ((irq_prevent_balanced h0 hr).2.2.2 _ hallowed 1).2 m' hm' rfl hnil

/-! ## The width of the counter -/

/-- Sections can be nested `n` deep, if the counter can count them. -/
theorem reaches_nested {s₀ : Sched} (hidle : isCurrentThreadIdling s₀ = false)
    (hk : s₀.cpu.irqDisableCounter = 0) : ∀ n < 4294967296,
    ∃ m, Reaches Machine.Step (Machine.start s₀) m ∧ isCurrentThreadIdling m.sched = false ∧
      m.sched.cpu.irqDisableCounter = n := by
  intro n
  induction n with
  | zero => exact fun _ => ⟨_, .refl, hidle, hk⟩
  | succ n ih =>
    intro hn
    obtain ⟨m, hr, hid, hm⟩ := ih (by omega)
    have hacquire := acquireIrqPrevent_ok (s := m.sched) (by omega)
    have hallowed : m.Allowed .acquireIrqPrevent := fun hp => by simp [hp.1] at hid
    refine ⟨{ m with
      sched := { m.sched with cpu := m.sched.cpu.acquired }
      nest := m.nest.enter m.sched.current m.sched.cpu.interrupts .irqPrevent },
      hr.tail ⟨.acquireIrqPrevent, 0, hallowed, ?_⟩, hid, congrArg (· + 1) hm⟩
    unfold Machine.run perform
    simp only [hacquire]
    rfl

/-- The first thread has begun 2^32 - 1 sections, and begins one more. -/
theorem irq_prevent_wraps : ∃ s₀ m, Booted s₀ ∧ Reaches Machine.Step (Machine.start s₀) m ∧
    m.Allowed .acquireIrqPrevent ∧ m.run 0 .acquireIrqPrevent = .error .irqCounterWrapped := by
  have hboot : ∃ s₀, Booted s₀ ∧ isCurrentThreadIdling s₀ = false ∧
      s₀.cpu.irqDisableCounter = 0 := by
    refine ⟨_, ⟨bootState, 2, 0, bootState_fresh, rfl⟩, ?_, ?_⟩ <;> decide
  obtain ⟨s₀, h0, hidle, hk⟩ := hboot
  obtain ⟨m, hr, hid, hm⟩ := reaches_nested hidle hk 4294967295 (by omega)
  refine ⟨s₀, m, h0, hr, fun hp => by simp [hp.1] at hid, ?_⟩
  unfold Machine.run perform
  simp only [acquireIrqPrevent_wrapped (s := m.sched) (by omega)]
  rfl

end Nolrem.Task
