import Nolrem.Lib.Transition
import Nolrem.Task.Calls

/-!
# Runs of the scheduler

The steps of one CPU: the calls that threads and interrupt handlers make, in any nesting,
the arrival and the return of an interrupt, and the end of the idle loop. An interrupt can
come whenever interrupts are on, also in the idle loop.
-/

namespace Nolrem.Task

open Nolrem.Lib

inductive Event where
  | acquireScheduler
  | releaseScheduler
  | schedule
  | blockThread
  | unblockThread (t : Nat)
  | createThread (t : Nat)
  | setThreadPriority (t priority : Nat)
  | setAffinity (t mask : Nat)
  | irqEnter
  | irqExit
  | idleWake
deriving DecidableEq, Repr

def run (fuel : Nat) (s : Sched) : Event → Except Halt Sched
  | .acquireScheduler => acquireScheduler s
  | .releaseScheduler => releaseScheduler fuel s
  | .schedule => schedule fuel s
  | .blockThread => blockThread fuel s
  | .unblockThread t => unblockThread s t
  | .createThread t => createThread fuel s t true
  | .setThreadPriority t priority => setThreadPriority fuel s t priority
  | .setAffinity t mask => .ok (s.modify t fun th => { th with affinityBitmask := mask })
  | .irqEnter => .ok { s with cpu.interrupts := false }
  | .irqExit => .ok { s with cpu.interrupts := true }
  | .idleWake => idleWake fuel s

/-- The CPU waits in the idle loop, and no interrupt handler runs. -/
def Parked (s : Sched) : Prop := isCurrentThreadIdling s = true ∧ s.cpu.interrupts = true

/--
When a step can be taken. `BlockThread` and `UnblockThread` need the scheduler lock, and
only a blocked thread is unblocked. The code an interrupt returns to had interrupts on, so
it is in no section.
-/
def Enabled (s : Sched) : Event → Prop
  | .acquireScheduler => ¬ Parked s
  | .releaseScheduler => 0 < s.schedPreventCount
  | .schedule => ¬ Parked s
  | .blockThread => 0 < s.schedPreventCount
  | .unblockThread t =>
    0 < s.schedPreventCount ∧ s.live t = true ∧ (s.thr t).state = .blocked
  | .createThread t => ¬ Parked s ∧ s.live t = false
  | .setThreadPriority t _ => ¬ Parked s ∧ s.live t = true
  | .setAffinity t _ =>
    s.live t = true ∧ s.currentThread ≠ some t ∧ s.schedPostponedThr ≠ some t
  | .irqEnter => s.cpu.interrupts = true
  | .irqExit => s.schedPreventCount = 0
  | .idleWake => Parked s ∧ s.somethingUnblockedSeq ≠ s.ogSeq

instance (s : Sched) : Decidable (Parked s) := inferInstanceAs (Decidable (_ ∧ _))

instance (s : Sched) (e : Event) : Decidable (Enabled s e) :=
  match e with
  | .acquireScheduler | .schedule => inferInstanceAs (Decidable (¬ _))
  | .releaseScheduler | .blockThread => inferInstanceAs (Decidable (0 < _))
  | .unblockThread _ | .createThread _ | .setThreadPriority _ _ | .setAffinity _ _ | .idleWake =>
    inferInstanceAs (Decidable (_ ∧ _))
  | .irqEnter => inferInstanceAs (Decidable (s.cpu.interrupts = true))
  | .irqExit => inferInstanceAs (Decidable (s.schedPreventCount = 0))

/-- `BlockThread` is not called again before the current thread, blocked and woken, has run. -/
def NoReblock (s : Sched) (e : Event) : Prop :=
  e = .blockThread → ∀ c, s.currentThread = some c → (s.thr c).state ≠ .ready

abbrev AnyEvent (_ : Sched) (_ : Event) : Prop := True

/-- A step with an event that `ok` allows. -/
def Step (ok : Sched → Event → Prop) (s s' : Sched) : Prop :=
  ∃ e fuel, Enabled s e ∧ ok s e ∧ run fuel s e = .ok s'

/-- The static variables before `InitScheduler`. -/
structure FreshBoot (s : Sched) : Prop where
  schedInit : s.schedInit = false
  schedPostponed : s.schedPostponed = false
  schedPostponedThr : s.schedPostponedThr = none
  readyListHead : s.readyListHead = none
  readyListTail : s.readyListTail = none
  irqDisableCounter : s.cpu.irqDisableCounter = 0
  live : ∀ t, s.live t = false

/-- The state that `InitScheduler` leaves. -/
def Booted (s : Sched) : Prop :=
  ∃ boot fuel t, FreshBoot boot ∧ initScheduler fuel boot t = .ok s

/-! ## One step -/

theorem setAffinity_inv {s : Sched} {c t : Nat} {l : List Nat} (h : InvAt s c l) (mask : Nat)
    (htc : t ≠ c) (htp : s.schedPostponedThr ≠ some t) :
    InvAt (s.modify t fun th => { th with affinityBitmask := mask }) c l := by
  obtain ⟨hplaced, hq, hdue⟩ := h
  have hthr : ∀ u, (s.modify t fun th => { th with affinityBitmask := mask }).thr u =
      { s.thr u with affinityBitmask := if u = t then mask else (s.thr u).affinityBitmask } := by
    intro u
    by_cases hu : u = t
    · subst hu
      simp
    · simp [hu]
  have hcan : ∀ u, u ≠ t → canThreadRunOnThisCpu
      (s.modify t fun th => { th with affinityBitmask := mask }) u = canThreadRunOnThisCpu s u := by
    intro u hu
    unfold canThreadRunOnThisCpu
    rw [hthr, if_neg hu]
    rfl
  refine ⟨⟨hplaced.init, hplaced.current, hplaced.currentLive, ?_, ⟨?_, hplaced.linked.tail⟩,
    ?_, ?_, ?_, ?_, ?_, ?_⟩, hq.frame ⟨rfl, rfl, rfl, rfl, fun u => ?_⟩,
    ⟨hdue.held, hdue.pending, ?_⟩⟩
  · rw [hcan c htc.symm]
    exact hplaced.currentRuns
  · exact Chain.congr (fun u _ => by rw [hthr]) hplaced.linked.chain
  · intro u hu
    rw [hthr]
    exact hplaced.listed u hu
  · intro u hu
    have hut : u ≠ t := fun hut => htp (hut ▸ hu)
    rw [hcan u hut, hthr, hthr]
    exact hplaced.held u hu
  · rw [hthr]
    exact hplaced.running
  · rw [hthr]
    exact hplaced.woken
  · intro u
    rw [hthr]
    exact hplaced.others u
  · intro u
    rw [hthr]
    exact hplaced.idling u
  · rw [hthr]
    exact ⟨rfl, rfl⟩
  · rw [hthr]
    exact hdue.leaving

theorem irq_inv {s : Sched} {c : Nat} {l : List Nat} (h : InvAt s c l) (on : Bool)
    (hon : 0 < s.schedPreventCount → on = false) :
    InvAt { s with cpu.interrupts := on } c l := by
  obtain ⟨hplaced, hq, hdue⟩ := h
  refine ⟨hplaced.frame ⟨fun _ => ⟨rfl, rfl, rfl, rfl⟩, rfl, rfl, rfl, rfl, rfl, rfl⟩, ?_, ?_⟩
  · exact ⟨hq.lock, hq.prevent, hq.counter, hq.small, hon, hq.saved⟩
  · exact ⟨hdue.held, hdue.pending, hdue.leaving⟩

/-- What each step keeps, and how it can stop the machine. -/
theorem run_spec {s : Sched} {c : Nat} {l : List Nat} (h : InvAt s c l) {e : Event}
    (he : Enabled s e) (hno : NoReblock s e) (fuel : Nat) :
    Ends (run fuel s e)
      (fun s' => Inv s' ∧ ∀ t, s.live t = true → (s.thr t).state = .ready ∨ e = .unblockThread t →
        (s'.thr t).state ≠ .blocked)
      (Overrun (s.cpu.irqDisableCounter + 1) fuel (l.length + 2)) := by
  -- most steps keep every awake thread awake
  have hkept : ∀ (x : Except Halt Sched) (k n : Nat), Ends x (Kept s) (Overrun k fuel n) →
      k ≤ s.cpu.irqDisableCounter + 1 → n ≤ l.length + 2 → (∀ t, e ≠ .unblockThread t) →
      Ends x (fun s' => Inv s' ∧ ∀ t, s.live t = true →
        (s.thr t).state = .ready ∨ e = .unblockThread t → (s'.thr t).state ≠ .blocked)
        (Overrun (s.cpu.irqDisableCounter + 1) fuel (l.length + 2)) := by
    intro x k n hx hk hn hne
    refine hx.mono (fun s' hs' => ⟨hs'.1, fun t _ ht => hs'.2 t ?_⟩) fun _ h => h.mono hk hn
    rw [ht.resolve_right (hne t)]
    simp
  cases e with
  | acquireScheduler =>
    exact hkept _ _ 0 ((acquireScheduler_kept h).mono (fun _ h => h) fun _ h => Or.inl h)
      (Nat.le_refl _) (by omega) (by simp)
  | releaseScheduler =>
    exact hkept _ _ _ (releaseScheduler_spec h he fuel) (by omega) (by omega) (by simp)
  | schedule =>
    exact hkept _ _ _ (schedule_spec h.placed h.quiet fuel) (by omega) (by omega) (by simp)
  | blockThread =>
    refine (blockThread_spec h (hno rfl c h.placed.current) fuel).mono
      (fun s' hs' => ⟨hs'.1, fun t _ ht => hs'.2 t (ht.resolve_right (by simp))⟩)
      fun _ h => h.mono (by omega) (by omega)
  | unblockThread t =>
    obtain ⟨hprevent, hlive, hblocked⟩ := he
    refine (unblockThread_spec h hlive hblocked hprevent).mono ?_ fun _ h => h.elim
    rintro s' ⟨⟨l', hinv, -⟩, hw, hst, -, -⟩
    refine ⟨⟨c, l', hinv⟩, fun u _ hu => ?_⟩
    rcases hu with hu | hu
    · exact hw u (by simp [hu])
    · obtain rfl : t = u := by simpa using hu
      exact hst
  | createThread t =>
    refine (createThread_spec h he.2 fuel).mono
      (fun s' hs' => ⟨hs'.1, fun u hlive hu => hs'.2 u hlive ?_⟩)
      fun _ h => h.mono (by omega) (by omega)
    rw [hu.resolve_right (by simp)]
    simp
  | setThreadPriority t priority =>
    exact hkept _ _ _ (setThreadPriority_spec h t priority fuel) (by omega) (by omega) (by simp)
  | setAffinity t mask =>
    obtain ⟨-, htc, htp⟩ := he
    refine hkept _ 0 0 ⟨⟨c, l, setAffinity_inv h mask ?_ htp⟩, fun u hu => ?_⟩ (by omega)
      (by omega) (by simp)
    · rintro rfl
      exact htc h.placed.current
    · by_cases hut : u = t
      · subst hut
        simpa using hu
      · simpa [hut] using hu
  | irqEnter =>
    exact hkept _ 0 0 ⟨⟨c, l, irq_inv h false fun _ => rfl⟩, fun _ h => h⟩ (by omega) (by omega)
      (by simp)
  | irqExit =>
    have hzero : s.schedPreventCount = 0 := he
    exact hkept _ 0 0 ⟨⟨c, l, irq_inv h true fun hp => absurd hp (by omega)⟩, fun _ h => h⟩
      (by omega) (by omega) (by simp)
  | idleWake =>
    have hid : (s.thr c).idling = true := by
      have := he.1.1
      unfold isCurrentThreadIdling at this
      rw [h.placed.current] at this
      simpa [h.placed.init] using this
    exact hkept _ _ _ (idleWake_spec h hid he.1.2 fuel) (by omega) (by omega) (by simp)

/-! ## The start -/

/-- The first thread `t` has been created, and nothing runs yet. -/
structure BootThread (t : Nat) (s : Sched) : Prop where
  linked : Linked s [t]
  cpu : s.cpu.irqDisableCounter = 0
  lock : s.schedLock = false
  prevent : s.schedPreventCount = 0
  postponed : s.schedPostponed = false
  held : s.schedPostponedThr = none
  live : ∀ u, s.live u = true ↔ u = t
  idling : (s.thr t).idling = false

/-- `ReleaseScheduler` when no switch is due. -/
theorem releaseScheduler_quiet {s : Sched} (hlock : s.schedLock = false)
    (hoff : s.cpu.interrupts = false) (hk : s.cpu.irqDisableCounter = 1)
    (hpost : s.schedPostponed = false) (fuel : Nat) :
    Ends (releaseScheduler fuel s)
      (fun s' => ∃ cpu, s' = { s with
          cpu := cpu, schedLock := false, schedPreventCount := s.schedPreventCount - 1 } ∧
        cpu.irqDisableCounter = 0)
      (fun _ => True) := by
  unfold releaseScheduler
  rw [hoff]
  simp only [Bool.false_eq_true, if_false]
  refine ((acquireSpinlock_spec (by omega) hlock).mono (fun _ h => h) (fun _ _ => trivial)).bind ?_
  rintro _ ⟨cpu, rfl, -, hk2, -⟩
  obtain ⟨cpu', h1, h2, -⟩ := finishRelease_eq
    (s := { s with cpu := cpu, schedLock := true, schedPreventCount := s.schedPreventCount - 1 })
    (by simp only; omega)
  show Ends (if s.schedPreventCount - 1 = 0 ∧ s.schedPostponed = true then _ else _) _ _
  rw [if_neg (by simp [hpost])]
  show Ends (finishRelease _) _ _
  rw [h1]
  exact ⟨cpu', rfl, by simp only at h2; omega⟩

/-- The first thread is not started by `BeginNewThread`. -/
theorem createThread_boot_entered {boot : Sched} (hb : FreshBoot boot) (fuel t : Nat) :
    Ends (createThread fuel { boot with schedPreventCount := 0, schedLock := false } t false)
      (fun s => BootThread t s ∧ (s.thr t).entered = true) (fun _ => True) := by
  have hk0 := hb.irqDisableCounter
  unfold createThread
  refine ((acquireScheduler_spec (by simp only [Sched.modify]; omega) rfl).mono (fun _ h => h)
    (fun _ _ => trivial)).bind ?_
  rintro _ ⟨cpu, rfl, hoff, hk, -⟩
  simp only [Sched.modify, hk0] at hk
  -- before `sched_init` a woken thread is queued
  set s2 : Sched := { { boot.modify t fun th => newThread th false with
    live := Function.update boot.live t true } with
    cpu := cpu, schedLock := false, schedPreventCount := 1 } with hs2
  have hunblock : unblockThread s2 t = .ok (bumpSeq (addToBackOfReadyQueue
      (s2.modify t fun th => { th with nextReady := none, state := .ready }) t)) := by
    have hi : ((s2.modify t fun th => { th with nextReady := none, state := .ready }).thr t).idling
        = false := by simp [hs2, newThread]
    unfold unblockThread shouldPreempt
    simp only [hi, Bool.false_eq_true, if_false]
    rw [if_pos (show (s2.modify t _).schedInit = false from hb.schedInit)]
    rfl
  show Ends (unblockThread s2 t >>= fun s => releaseScheduler fuel s) _ _
  rw [hunblock]
  have hempty : Linked (s2.modify t fun th => { th with nextReady := none, state := .ready }) [] :=
    ⟨hb.readyListHead, hb.readyListTail⟩
  have hlinked := addToBackOfReadyQueue_linked (t := t) hempty (by simp)
  obtain ⟨next, head, tail, heq⟩ := addToBackOfReadyQueue_relinked
    (s2.modify t fun th => { th with nextReady := none, state := .ready }) t
  rw [heq] at hlinked ⊢
  refine Ends.mono (releaseScheduler_quiet ?_ ?_ ?_ ?_ fuel) ?_ fun _ h => h
  · exact rfl
  · exact hoff
  · exact hk
  · exact hb.schedPostponed
  rintro _ ⟨cpu', rfl, hk'⟩
  refine ⟨⟨⟨hlinked.chain, hlinked.tail⟩, hk', rfl, rfl, hb.schedPostponed,
    hb.schedPostponedThr, fun u => ?_, ?_⟩, ?_⟩
  · by_cases hu : u = t <;> simp [hs2, Sched.setReady, hu, hb.live]
  · simp [hs2, Sched.setReady, newThread]
  · simp [hs2, Sched.setReady, newThread]

theorem createThread_boot {boot : Sched} (hb : FreshBoot boot) (fuel t : Nat) :
    Ends (createThread fuel { boot with schedPreventCount := 0, schedLock := false } t false)
      (BootThread t) (fun _ => True) :=
  (createThread_boot_entered hb fuel t).mono (fun _ h => h.1) (fun _ h => h)

theorem booted_inv {s : Sched} (h : Booted s) : Inv s := by
  obtain ⟨boot, fuel, t, hb, hs⟩ := h
  refine Ends.of_ok (E := fun _ => True) ?_ hs
  unfold initScheduler
  refine (createThread_boot hb fuel t).bind fun s1 h1 => ?_
  have hlinked : Linked { s1 with schedInit := true } [t] := ⟨h1.linked.chain, h1.linked.tail⟩
  unfold setupInitialThread
  refine ((findNextThread_spec hlinked fuel).mono (fun _ h => h) (fun _ _ => trivial)).bind ?_
  rintro ⟨s2, found⟩ hf
  cases found with
  | none => trivial
  | some u =>
    obtain ⟨hcan, ⟨next, head, tail, rfl⟩, a, b, hab, hl⟩ := hf.some_ok u rfl
    obtain ⟨rfl, rfl, rfl⟩ : a = [] ∧ u = t ∧ b = [] := by
      rcases a with _ | ⟨x, a⟩
      · simpa using hab.symm
      · simp at hab
    have hlive : s1.live u = true := (h1.live u).mpr rfl
    have hcan' := hcan
    unfold canThreadRunOnThisCpu at hcan'
    refine ⟨u, [], ⟨⟨rfl, rfl, hlive, ?_, ?_, by simp, ?_, ?_, ?_, ?_, ?_⟩, ?_, ?_⟩⟩
    · simpa [canThreadRunOnThisCpu] using hcan'
    · exact ⟨hl.chain, hl.tail⟩
    · intro v hv
      simp [h1.held] at hv
    · intro
      simpa using h1.idling
    · intro _ hr
      simp at hr
    · intro v hv hvu
      exact absurd ((h1.live v).mp hv) hvu
    · intro v hv _
      exact (h1.live v).mp hv
    · refine ⟨h1.lock, Int.le_of_eq h1.prevent.symm, ?_, ?_, ?_, ?_⟩
      · simp [h1.cpu, h1.prevent, h1.idling]
      · simp [h1.cpu]
      · intro hp
        simp [h1.prevent] at hp
      · intro v hv hvu
        exact absurd ((h1.live v).mp hv) hvu
    · refine ⟨fun hp => absurd h1.held hp, fun hp => ?_, fun hr => ?_⟩
      · simp [h1.postponed] at hp
      · simp at hr

/-! ## All runs -/

/-- The number of places that thread `t` has, with the ready list `l`. -/
def places (s : Sched) (l : List Nat) (t : Nat) : Nat :=
  (if s.currentThread = some t then 1 else 0) + l.count t +
    (if s.schedPostponedThr = some t then 1 else 0) +
    (if (s.thr t).state = .blocked ∧ s.currentThread ≠ some t then 1 else 0)

/-- The current thread was blocked, and was woken before it switched away. -/
def WokenEarly (s : Sched) (t : Nat) : Prop :=
  s.currentThread = some t ∧ (s.thr t).state = .ready ∧ (s.thr t).idling = false

/-- With the ready list `l` every thread is in one place, and every woken thread will be found. -/
structure PlacedOnce (s : Sched) (l : List Nat) : Prop where
  chain : Chain (fun t => (s.thr t).nextReady) s.readyListHead l
  acyclic : l.Nodup
  tail : s.readyListTail = l.getLast?
  ends : s.readyListHead = none ↔ s.readyListTail = none
  listed : ∀ t ∈ l, s.live t = true
  one_place : ∀ t, s.live t = true → ¬ WokenEarly s t → places s l t = 1
  woken_early : ∀ t, WokenEarly s t → places s l t = 2 ∧ l.count t = 1
  running : ∀ t, s.live t = true → (s.thr t).state = .running → s.currentThread = some t
  woken : ∀ t, s.live t = true → (s.thr t).state = .ready →
    t ∈ l ∨ s.schedPostponedThr = some t ∨ s.currentThread = some t ∧ (s.thr t).idling = true

theorem PlacedOnce.next_ne_self {s : Sched} {l : List Nat} {t : Nat} (h : PlacedOnce s l)
    (ht : s.readyListHead = some t) : (s.thr t).nextReady ≠ some t := by
  intro hself
  have hc := h.chain
  rw [ht] at hc
  exact not_chain_of_self hself l hc

/-- The reasons for which `SwitchToThread` panics. -/
def SwitchPanic (e : Halt) : Prop :=
  e = .switchEntry ∨ e = .switchState ∨ e = .switchAffinity

theorem InvAt.placedOnce {s : Sched} {c : Nat} {l : List Nat} (h : InvAt s c l) :
    PlacedOnce s l := by
  obtain ⟨hp, -, -⟩ := h
  have hnd := hp.linked.chain.nodup
  have hheld : ∀ t, s.schedPostponedThr = some t → t ∉ l ∧ t ≠ c ∧ (s.thr t).state = .ready :=
    fun t ht => ⟨(hp.held t ht).2.2.1, (hp.held t ht).2.2.2.1, (hp.held t ht).2.1⟩
  have hcurrent : ∀ t, s.currentThread = some t ↔ t = c := by
    intro t
    rw [hp.current]
    exact ⟨fun h => (Option.some.inj h).symm, fun h => by rw [h]⟩
  have hheldc : s.schedPostponedThr ≠ some c := fun hc => (hheld c hc).2.1 rfl
  refine ⟨hp.linked.chain, hnd, hp.linked.tail, ?_, fun t ht => (hp.listed t ht).1, ?_, ?_, ?_, ?_⟩
  · rw [hp.linked.chain.start_eq_none_iff, hp.linked.tail, List.getLast?_eq_none_iff]
  · intro t ht hearly
    unfold places
    simp only [ne_eq, hcurrent]
    by_cases htc : t = c
    · subst htc
      have htl : t ∉ l := by
        intro htl
        have hready := (hp.listed t htl).2
        exact hearly ⟨hp.current, hready, (hp.woken id hready).mp htl⟩
      simp [List.count_eq_zero_of_not_mem htl, hheldc]
    · rcases hp.others t ht htc id with hb | ⟨hr, htl | htp⟩
      · have htl : t ∉ l := fun htl => by
          have := (hp.listed t htl).2
          simp [hb] at this
        have htp : s.schedPostponedThr ≠ some t := fun htp => by
          have := (hheld t htp).2.2
          simp [hb] at this
        simp [htc, hb, List.count_eq_zero_of_not_mem htl, htp]
      · have htp : s.schedPostponedThr ≠ some t := fun htp => (hheld t htp).1 htl
        simp [htc, hr, List.count_eq_one_of_mem hnd htl, htp]
      · simp [htc, hr, List.count_eq_zero_of_not_mem (hheld t htp).1, htp]
  · rintro t ⟨htc, hready, hid⟩
    obtain rfl := (hcurrent t).mp htc
    have hcount := List.count_eq_one_of_mem hnd ((hp.woken id hready).mpr hid)
    refine ⟨?_, hcount⟩
    unfold places
    simp [hcurrent, hcount, hheldc, hready]
  · intro t ht hr
    rw [hcurrent]
    by_contra htc
    rcases hp.others t ht htc id with hb | ⟨hr', -⟩ <;> simp_all
  · intro t ht hr
    rw [hcurrent]
    by_cases htc : t = c
    · subst htc
      by_cases hid : (s.thr t).idling = true
      · exact Or.inr (Or.inr ⟨rfl, hid⟩)
      · exact Or.inl ((hp.woken id hr).mpr (by simpa using hid))
    · rcases hp.others t ht htc id with hb | ⟨-, h1 | h1⟩
      · simp [hb] at hr
      · exact Or.inl h1
      · exact Or.inr (Or.inl h1)

theorem reaches_inv {s₀ s : Sched} (h0 : Booted s₀) (hr : Reaches (Step NoReblock) s₀ s) :
    Inv s := by
  refine hr.invariant (booted_inv h0) ?_
  rintro a b ⟨c, l, ha⟩ ⟨e, fuel, he, hno, hrun⟩
  exact ((run_spec ha he hno fuel).of_ok hrun).1

/--
**The places of threads.** In every state that can be reached without a second
`BlockThread` of a thread that has been woken but has not run: every thread is in one place,
the ready list is well formed, the next step does not panic in `SwitchToThread`, and it puts
no woken thread back to sleep.
-/
theorem scheduler_places {s₀ s : Sched} (h0 : Booted s₀) (hr : Reaches (Step NoReblock) s₀ s) :
    (∃ l, PlacedOnce s l) ∧ ∀ e, Enabled s e → NoReblock s e → ∀ fuel,
      (∀ h, run fuel s e = .error h → ¬ SwitchPanic h) ∧
      ∀ s', run fuel s e = .ok s' → ∀ t, s.live t = true →
        (s.thr t).state = .ready ∨ e = .unblockThread t → (s'.thr t).state ≠ .blocked := by
  obtain ⟨c, l, hinv⟩ := reaches_inv h0 hr
  refine ⟨⟨l, hinv.placedOnce⟩, fun e he hno fuel => ⟨fun h hh => ?_, fun s' hs' => ?_⟩⟩
  · rintro hpanic
    rcases (run_spec hinv he hno fuel).of_error hh with ⟨rfl, -⟩ | ⟨rfl, -⟩ <;>
      simp [SwitchPanic] at hpanic
  · exact ((run_spec hinv he hno fuel).of_ok hs').2

/-- The kernel before `InitScheduler`. -/
def bootState : Sched where
  cpu := { interrupts := false, irqDisableCounter := 0, savedInterruptEnabled := true }
  cpuNum := 0
  thr := fun _ =>
    { state := .running, priority := 0, idling := false, nextReady := none, affinityBitmask := 0
      irqDisableCounter := 0, savedInterruptEnabled := false, entered := false }
  live := fun _ => false
  somethingUnblockedSeq := 0
  schedLock := false
  schedPreventCount := 0
  schedPostponed := false
  schedPostponedThr := none
  readyListHead := none
  readyListTail := none
  currentThread := none
  schedInit := false
  ogSeq := 0

theorem bootState_fresh : FreshBoot bootState := ⟨rfl, rfl, rfl, rfl, rfl, rfl, fun _ => rfl⟩

/-- The first thread blocks, and an interrupt in the idle loop wakes it. -/
theorem scheduler_places_idle : ∃ s₀ s, initScheduler 2 bootState 0 = .ok s₀ ∧
    Reaches (Step NoReblock) s₀ s ∧ isCurrentThreadIdling s = true ∧
    (s.thr 0).state = .ready ∧ ∃ l, PlacedOnce s l := by
  have hno : ∀ s e, e ≠ .blockThread → NoReblock s e := fun _ _ hne h => absurd h hne
  refine ⟨_, _, rfl, ?_, ?_, ?_, (scheduler_places ⟨bootState, 2, 0, bootState_fresh, rfl⟩
    (((((((Relation.ReflTransGen.refl.tail
      ⟨.acquireScheduler, 1, by decide, hno _ _ (by simp), rfl⟩).tail
      ⟨.blockThread, 1, by decide, fun _ _ h => by cases h; decide, rfl⟩).tail
      ⟨.releaseScheduler, 1, by decide, hno _ _ (by simp), rfl⟩).tail
      ⟨.irqEnter, 1, by decide, hno _ _ (by simp), rfl⟩).tail
      ⟨.acquireScheduler, 1, by decide, hno _ _ (by simp), rfl⟩).tail
      ⟨.unblockThread 0, 1, by decide, hno _ _ (by simp), rfl⟩))).1⟩
  · exact (((((Relation.ReflTransGen.refl.tail
      ⟨.acquireScheduler, 1, by decide, hno _ _ (by simp), rfl⟩).tail
      ⟨.blockThread, 1, by decide, fun _ _ h => by cases h; decide, rfl⟩).tail
      ⟨.releaseScheduler, 1, by decide, hno _ _ (by simp), rfl⟩).tail
      ⟨.irqEnter, 1, by decide, hno _ _ (by simp), rfl⟩).tail
      ⟨.acquireScheduler, 1, by decide, hno _ _ (by simp), rfl⟩).tail
      ⟨.unblockThread 0, 1, by decide, hno _ _ (by simp), rfl⟩
  · decide
  · decide

/--
A thread that is woken twice before it runs is queued twice, and is its own successor: two
waits in one section, where each is over before the section is left.
-/
theorem reblock_not_placedOnce : ∃ s₀ s, initScheduler 2 bootState 0 = .ok s₀ ∧
    Reaches (Step AnyEvent) s₀ s ∧ ¬ ∃ l, PlacedOnce s l := by
  refine ⟨_, _, rfl, (((((Relation.ReflTransGen.refl.tail
    ⟨.acquireScheduler, 1, by decide, trivial, rfl⟩).tail
    ⟨.blockThread, 1, by decide, trivial, rfl⟩).tail
    ⟨.unblockThread 0, 1, by decide, trivial, rfl⟩).tail
    ⟨.blockThread, 1, by decide, trivial, rfl⟩).tail
    ⟨.unblockThread 0, 1, by decide, trivial, rfl⟩), ?_⟩
  rintro ⟨l, hl⟩
  exact hl.next_ne_self (t := 0) rfl rfl

/-- Each step of such a run returns, unless sections are nested 2^32 deep. -/
theorem scheduler_returns {s₀ s : Sched} (h0 : Booted s₀) (hr : Reaches (Step NoReblock) s₀ s)
    {e : Event} (he : Enabled s e) (hno : NoReblock s e)
    (hdepth : s.cpu.irqDisableCounter + 1 < 4294967295) : ∃ fuel s', run fuel s e = .ok s' := by
  obtain ⟨c, l, hinv⟩ := reaches_inv h0 hr
  obtain ⟨s', hs', -⟩ := (run_spec hinv he hno (l.length + 3)).exists_ok fun h hh => by
    rcases hh with ⟨-, hh⟩ | ⟨-, hh⟩ <;> omega
  exact ⟨_, s', hs'⟩

/-- The first thread blocks as soon as it runs. -/
theorem scheduler_returns_idle : ∃ s₀ s, initScheduler 2 bootState 0 = .ok s₀ ∧
    Reaches (Step NoReblock) s₀ s ∧ ∃ fuel s', run fuel s .blockThread = .ok s' := by
  have hno : ∀ s, NoReblock s .acquireScheduler := fun _ => nofun
  have hrun {s₀ s : Sched} (h : Step NoReblock s₀ s) := Relation.ReflTransGen.refl.tail h
  refine ⟨_, _, rfl, hrun ⟨.acquireScheduler, 1, by decide, hno _, rfl⟩,
    scheduler_returns ⟨bootState, 2, 0, bootState_fresh, rfl⟩
      (hrun ⟨.acquireScheduler, 1, by decide, hno _, rfl⟩) (by decide) ?_ (by decide)⟩
  exact fun _ => by decide

end Nolrem.Task
