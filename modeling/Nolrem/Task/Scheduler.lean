import Mathlib.Logic.Function.Basic
import Nolrem.Lib.Outcome

/-!
# The scheduler

`kernel/task/scheduler.c` with `kernel/sync/irqctrl.c` and `kernel/sync/spinlock.c`, on one
CPU. A thread is named by a number; the structures they name are in `Sched.thr`.

The CPU runs one stack at a time. When `SwitchToThread` parks in `IdleUntilRunnable` the
function of the model returns, and the rest of the call is `idleWake`. `ArchSwitchThread`
returns on the stack of the new thread, which is either in the same call of
`ReleaseScheduler` or at the entry of `BeginNewThread`.

The waits that `UnblockThread` cancels, and `block_return_val`, belong to the semaphores.
-/

namespace Nolrem.Task

/-! ## State -/

/-- `THREAD_STATE_RUNNING`, `THREAD_STATE_READY`, `THREAD_STATE_BLOCKED`. -/
inductive ThreadState where
  | running
  | ready
  | blocked
deriving DecidableEq, Repr

/-- What the scheduler uses of `struct thread`. -/
structure Thread where
  state : ThreadState
  priority : Nat
  idling : Bool
  nextReady : Option Nat
  affinityBitmask : Nat
  irqDisableCounter : Nat
  savedInterruptEnabled : Bool
  /-- Its stack is past the frame that `ArchSetupNewThreadEntry` made. -/
  entered : Bool
deriving DecidableEq, Repr

/-- What is used of `struct cpu_data`, and the interrupt flag. -/
structure Cpu where
  interrupts : Bool
  irqDisableCounter : Nat
  savedInterruptEnabled : Bool
deriving DecidableEq, Repr

/-- The static variables of the scheduler, the threads, and the CPU. -/
structure Sched where
  cpu : Cpu
  cpuNum : Nat
  thr : Nat → Thread
  /-- The threads that have been created. -/
  live : Nat → Bool
  somethingUnblockedSeq : Nat
  schedLock : Bool
  schedPreventCount : Int
  schedPostponed : Bool
  schedPostponedThr : Option Nat
  readyListHead : Option Nat
  readyListTail : Option Nat
  currentThread : Option Nat
  schedInit : Bool
  /-- `og_seq` of the idle loop. -/
  ogSeq : Nat

/-- Why the machine stops: each `Panic`, a null dereference, and a loop without an end. -/
inductive Halt where
  | irqCounterWrapped
  | irqCounterZero
  | releaseInterruptsOn
  | beginNewThread
  | switchEntry
  | switchState
  | switchAffinity
  | nullThread
  | spins
  | outOfFuel
deriving DecidableEq, Repr

/-- Assignment to the fields of one thread. -/
def Sched.modify (s : Sched) (t : Nat) (f : Thread → Thread) : Sched :=
  { s with thr := Function.update s.thr t (f (s.thr t)) }

/-- `thr->next_ready = n` -/
def Sched.setNext (s : Sched) (t : Nat) (n : Option Nat) : Sched :=
  s.modify t fun th => { th with nextReady := n }

/-- `current_thread`, which is dereferenced. -/
def getCurrentThread (s : Sched) : Except Halt Nat :=
  match s.currentThread with
  | none => .error .nullThread
  | some t => .ok t

/-- `++something_unblocked_seq` -/
def bumpSeq (s : Sched) : Sched :=
  { s with somethingUnblockedSeq := (s.somethingUnblockedSeq + 1) % 4294967296 }

/-! ## Interrupts and spinlocks -/

/-- `AcquireIrqPrevent` -/
def acquireIrqPrevent (s : Sched) : Except Halt Sched :=
  let cpu := s.cpu
  let counter := (cpu.irqDisableCounter + 1) % 4294967296
  if counter = 0 then
    .error .irqCounterWrapped
  else
    .ok { s with
      cpu.interrupts := false
      cpu.irqDisableCounter := counter
      cpu.savedInterruptEnabled :=
        if cpu.irqDisableCounter = 0 then cpu.interrupts else cpu.savedInterruptEnabled }

/-- `ReleaseIrqPrevent` -/
def releaseIrqPrevent (s : Sched) : Except Halt Sched :=
  if s.cpu.irqDisableCounter = 0 then
    .error .irqCounterZero
  else if s.cpu.irqDisableCounter - 1 = 0 ∧ s.cpu.savedInterruptEnabled = true then
    .ok { s with cpu.irqDisableCounter := 0, cpu.interrupts := true }
  else
    .ok { s with cpu.irqDisableCounter := s.cpu.irqDisableCounter - 1 }

/-- `AcquireSpinlock(&sched_lock)` -/
def acquireSpinlock (s : Sched) : Except Halt Sched := do
  let s ← acquireIrqPrevent s
  if s.schedLock then .error .spins else .ok { s with schedLock := true }

/-- `ReleaseSpinlock(&sched_lock)` -/
def releaseSpinlock (s : Sched) : Except Halt Sched :=
  releaseIrqPrevent { s with schedLock := false }

/-- `AcquireScheduler` -/
def acquireScheduler (s : Sched) : Except Halt Sched := do
  let s ← acquireIrqPrevent s
  let s ← acquireSpinlock s
  releaseSpinlock { s with schedPreventCount := s.schedPreventCount + 1 }

/-! ## The ready list -/

/-- `CanThreadRunOnThisCpu` -/
def canThreadRunOnThisCpu (s : Sched) (t : Nat) : Bool :=
  (s.thr t).affinityBitmask &&& (1 <<< s.cpuNum) != 0

/-- The body of the `if` in `FindNextThread`. -/
def unlinkReady (s : Sched) (prev : Option Nat) (t : Nat) : Sched :=
  let s1 := match prev with
    | none => { s with readyListHead := (s.thr t).nextReady }
    | some p => s.setNext p (s.thr t).nextReady
  let s2 := if s1.readyListTail = some t then { s1 with readyListTail := prev } else s1
  s2.setNext t none

/-- The loop of `FindNextThread`. -/
def findNextFrom (s : Sched) : Nat → Option Nat → Option Nat → Except Halt (Sched × Option Nat)
  | 0, _, _ => .error .outOfFuel
  | _ + 1, _, none => .ok (s, none)
  | fuel + 1, prev, some t =>
    if canThreadRunOnThisCpu s t then
      .ok (unlinkReady s prev t, some t)
    else
      findNextFrom s fuel (some t) (s.thr t).nextReady

/-- `FindNextThread` -/
def findNextThread (fuel : Nat) (s : Sched) : Except Halt (Sched × Option Nat) :=
  findNextFrom s fuel none s.readyListHead

/-- `AddToBackOfReadyQueue` -/
def addToBackOfReadyQueue (s : Sched) (t : Nat) : Sched :=
  let s1 := s.modify t fun th => { th with state := .ready, nextReady := none }
  let s2 := match s1.readyListTail with
    | none => s1
    | some z => s1.setNext z (some t)
  { s2 with
    readyListTail := some t
    readyListHead := if s2.readyListHead = none then some t else s2.readyListHead }

/-- `IsCurrentThreadIdling` -/
def isCurrentThreadIdling (s : Sched) : Bool :=
  match s.currentThread with
  | none => false
  | some c => s.schedInit && (s.thr c).idling

/-! ## Switching -/

/-- How `SwitchToThread` leaves the CPU. -/
inductive Control where
  | returned
  | parked

/-- The head of the loop in `IdleUntilRunnable`: the CPU waits with interrupts on. -/
def idlePark (s : Sched) : Except Halt Sched := do
  let s ← releaseSpinlock { s with ogSeq := s.somethingUnblockedSeq }
  .ok { s with cpu.interrupts := true }

/-- The end of `SwitchToThread`, up to the return of `ArchSwitchThread`. -/
def runThread (s : Sched) (old t : Nat) : Sched :=
  let s1 := { s with currentThread := some t }.modify t fun th =>
    { th with state := .running, nextReady := none }
  let s2 := s1.modify old fun th =>
    { th with
      irqDisableCounter := s1.cpu.irqDisableCounter
      savedInterruptEnabled := s1.cpu.savedInterruptEnabled }
  { s2 with
    cpu.irqDisableCounter := (s2.thr t).irqDisableCounter
    cpu.savedInterruptEnabled := (s2.thr t).savedInterruptEnabled }

/-- `SwitchToThread` after it has taken `t` from `FindNextThread` or the idle loop. -/
def runFound (s : Sched) (cur t : Nat) : Sched :=
  if t = cur then
    s.modify t fun th => { th with state := .running, nextReady := none }
  else
    runThread s cur t

/-- `SwitchToThread` after the current thread has been queued. -/
def pickThread (fuel : Nat) (s : Sched) (cur : Nat) (thr : Option Nat) :
    Except Halt (Sched × Control) :=
  match thr with
  | none => do
    let (s, found) ← findNextThread fuel s
    match found with
    | none =>
      if (s.thr cur).state ≠ .blocked then
        .error .switchState
      else
        let s ← idlePark (s.modify cur fun th => { th with idling := true })
        .ok (s, .parked)
    | some t => .ok (runFound s cur t, .returned)
  | some t =>
    if canThreadRunOnThisCpu s t then
      .ok (runThread s cur t, .returned)
    else
      .error .switchAffinity

/-- `SwitchToThread` -/
def switchToThread (fuel : Nat) (s : Sched) (thr : Option Nat) :
    Except Halt (Sched × Control) :=
  if s.schedInit = false then
    .ok (s, .returned)
  else if s.cpu.interrupts = true ∨ 0 < s.schedPreventCount ∨ s.schedLock = false then
    .error .switchEntry
  else do
    let cur ← getCurrentThread s
    if (s.thr cur).state = .running then
      if s.readyListHead = none ∧ thr = none then
        .ok (s, .returned)
      else
        pickThread fuel (addToBackOfReadyQueue s cur) cur thr
    else
      pickThread fuel s cur thr

/-- The end of `ReleaseScheduler`. -/
def finishRelease (s : Sched) : Except Halt Sched := do
  let s ← releaseSpinlock s
  releaseIrqPrevent s

/-- `BeginNewThread` -/
def beginNewThread (s : Sched) (t : Nat) : Except Halt Sched := do
  let zero : Bool := s.schedPreventCount = 0
  let s ← releaseSpinlock (s.modify t fun th => { th with entered := true })
  if zero then releaseIrqPrevent s else .error .beginNewThread

/-- What runs when `SwitchToThread` returns, on the stack of the current thread. -/
def resume (s : Sched) : Except Halt Sched :=
  match s.currentThread with
  | none => finishRelease s
  | some c => if (s.thr c).entered then finishRelease s else beginNewThread s c

/-- The part of `ReleaseScheduler` for a postponed switch. -/
def releasePostponed (fuel : Nat) (s : Sched) (thr : Option Nat) : Except Halt Sched :=
  if isCurrentThreadIdling s then
    match thr with
    | none => finishRelease s
    | some t => finishRelease (bumpSeq (addToBackOfReadyQueue s t))
  else do
    let (s, control) ← switchToThread fuel s thr
    match control with
    | .returned => resume s
    | .parked => .ok s

/-- `ReleaseScheduler` -/
def releaseScheduler (fuel : Nat) (s : Sched) : Except Halt Sched :=
  if s.cpu.interrupts then
    .error .releaseInterruptsOn
  else do
    let s ← acquireSpinlock s
    let s : Sched := { s with schedPreventCount := s.schedPreventCount - 1 }
    if s.schedPreventCount = 0 ∧ s.schedPostponed = true then
      releasePostponed fuel { s with schedPostponed := false, schedPostponedThr := none }
        s.schedPostponedThr
    else
      finishRelease s

/-- `Schedule` -/
def schedule (fuel : Nat) (s : Sched) : Except Halt Sched := do
  let s ← acquireScheduler s
  releaseScheduler fuel { s with schedPostponed := true }

/-- `IdleUntilRunnable` from the moment the CPU sees a new `something_unblocked_seq`. -/
def idleWake (fuel : Nat) (s : Sched) : Except Halt Sched := do
  let idler ← getCurrentThread s
  let s ← acquireSpinlock { s with cpu.interrupts := false }
  if (s.thr idler).state = .ready then
    resume (runFound (s.modify idler fun th => { th with idling := false }) idler idler)
  else
    let (s, found) ← findNextThread fuel s
    match found with
    | none => idlePark s
    | some t => resume (runFound (s.modify idler fun th => { th with idling := false }) idler t)

/-! ## Blocking and waking -/

/-- `BlockThread` -/
def blockThread (fuel : Nat) (s : Sched) : Except Halt Sched := do
  let cur ← getCurrentThread s
  schedule fuel (s.modify cur fun th => { th with state := .blocked })

/-- `ShouldPreempt` -/
def shouldPreempt (s : Sched) (t : Nat) : Except Halt Bool :=
  if s.schedInit = false then
    .ok false
  else do
    let cur ← getCurrentThread s
    if (s.thr cur).state ≠ .running then
      .ok false
    else if canThreadRunOnThisCpu s t = false then
      .ok false
    else
      .ok (s.readyListHead = none ∨ (s.thr t).priority < (s.thr cur).priority)

/-- The branch of `UnblockThread` that postpones a switch to `t`. -/
def postpone (s : Sched) (t : Nat) : Sched :=
  match s.schedPostponedThr with
  | none => { s with schedPostponed := true, schedPostponedThr := some t }
  | some p =>
    if (s.thr t).priority < (s.thr p).priority then
      { addToBackOfReadyQueue { s with schedPostponed := true } p with
        schedPostponedThr := some t }
    else
      addToBackOfReadyQueue { s with schedPostponed := true } t

/-- `UnblockThread` -/
def unblockThread (s : Sched) (t : Nat) : Except Halt Sched := do
  let s := s.modify t fun th => { th with nextReady := none, state := .ready }
  if (s.thr t).idling then
    .ok (bumpSeq s)
  else
    let preempt ← shouldPreempt s t
    if preempt then
      .ok (bumpSeq (postpone s t))
    else
      .ok (bumpSeq (addToBackOfReadyQueue s t))

/-! ## Threads -/

/-- The fields that `CreateThreadEx` sets; it leaves `state` to `UnblockThread`. -/
def newThread (old : Thread) (hasEntry : Bool) : Thread :=
  { state := old.state
    priority := 128
    idling := false
    nextReady := none
    affinityBitmask := 0xFFFFFFFF
    irqDisableCounter := 2
    savedInterruptEnabled := true
    entered := !hasEntry }

/-- `CreateThreadEx`; `t` is what `AllocHeap` returned. -/
def createThread (fuel : Nat) (s : Sched) (t : Nat) (hasEntry : Bool) : Except Halt Sched := do
  let s : Sched := { s.modify t fun th => newThread th hasEntry with
    live := Function.update s.live t true }
  let s ← acquireScheduler s
  let s ← unblockThread s t
  releaseScheduler fuel s

/-- `SetThreadPriority` -/
def setThreadPriority (fuel : Nat) (s : Sched) (t priority : Nat) : Except Halt Sched := do
  let s ← acquireScheduler s
  releaseScheduler fuel (s.modify t fun th => { th with priority := priority })

/-- `SetupInitialThread` -/
def setupInitialThread (fuel : Nat) (s : Sched) : Except Halt Sched := do
  let (s, thr) ← findNextThread fuel s
  match thr with
  | none => .error .nullThread
  | some t => .ok ({ s with currentThread := some t }.modify t fun th =>
      { th with state := .running })

/-- `InitScheduler`; `t` is the first thread. -/
def initScheduler (fuel : Nat) (s : Sched) (t : Nat) : Except Halt Sched := do
  let s ← createThread fuel { s with schedPreventCount := 0, schedLock := false } t false
  setupInitialThread fuel { s with schedInit := true }

end Nolrem.Task
