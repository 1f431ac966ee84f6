import Mathlib.Logic.Function.Basic

/-!
# Semaphores and timed waits

`kernel/sync/sem.c` and `kernel/task/timer.c`, with the part of `UnblockThread` that ends
waits. Threads, semaphores and clots are named by numbers. Every function here runs under
the scheduler lock, so of the scheduler only BLOCKED or not is kept.

A waiting list mixes threads, linked through `next_waiting_sem`, with clots, linked through
the entry of `nexts` for the semaphore whose list is walked.
-/

namespace Nolrem.Sync

/-! ## State -/

/-- What a waiting list links: the object header tells the two apart. -/
inductive WaitObj where
  | thread (t : Nat)
  | clot (c : Nat)
deriving DecidableEq, Repr

/-- What `waiting_sem_or_clot` points to. -/
inductive WaitOn where
  | sem (k : Nat)
  | clot (c : Nat)
deriving DecidableEq, Repr

/-- What is used of `struct thread`; `blocked` is `state == THREAD_STATE_BLOCKED`. -/
structure Thread where
  blocked : Bool
  nextWaitingSem : Option WaitObj
  nextWaitingTimer : Option Nat
  waitingSemOrClot : Option WaitOn
  wakeupTimeNs : Nat
  blockReturnVal : Int
deriving DecidableEq, Repr

/-- `struct sem` -/
structure Sem where
  count : Int
  max : Int
  waitingListStart : Option WaitObj
  waitingListEnd : Option WaitObj
deriving DecidableEq, Repr

/-- `struct wait_clot`; `count` is the length of `sems`. -/
structure WaitClot where
  thr : Nat
  sems : List Nat
  nexts : List (Option WaitObj)
deriving DecidableEq, Repr

structure Kernel where
  thr : Nat → Thread
  sem : Nat → Sem
  /-- The clots that are allocated. -/
  clot : Nat → Option WaitClot
  schedInit : Bool
  nsSinceBoot : Nat
  nextWakeupNs : Nat
  firstWaitingTimer : Option Nat

inductive Fault where
  | nullDeref
  | freedClot
  | badIndex
  | outOfFuel
deriving DecidableEq, Repr

def Kernel.setThr (s : Kernel) (t : Nat) (f : Thread → Thread) : Kernel :=
  { s with thr := Function.update s.thr t (f (s.thr t)) }

def Kernel.setSem (s : Kernel) (k : Nat) (f : Sem → Sem) : Kernel :=
  { s with sem := Function.update s.sem k (f (s.sem k)) }

def Kernel.setClot (s : Kernel) (c : Nat) (cl : Option WaitClot) : Kernel :=
  { s with clot := Function.update s.clot c cl }

def eNoMem : Nat := 2
def eInval : Nat := 7
def eAgain : Nat := 18
def eTimedOut : Nat := 28
def eAbandoned : Nat := 36

def timeoutInfinite : Int := -1
def timeoutInstant : Int := 0

/-! ## Waiting lists -/

/-- `LookupClotIndex`; `none` is -1. -/
def lookupClotIndex : List Nat → Nat → Option Nat
  | [], _ => none
  | s :: sems, k => if s = k then some 0 else (lookupClotIndex sems k).map (· + 1)

/-- A clot is read. -/
def getClot (s : Kernel) (c : Nat) : Except Fault WaitClot :=
  match s.clot c with
  | none => .error .freedClot
  | some cl => .ok cl

/-- The thread that waits: the object itself, or `clot->thr`. -/
def waiterOf (s : Kernel) : WaitObj → Except Fault Nat
  | .thread t => .ok t
  | .clot c => do
    let cl ← getClot s c
    .ok cl.thr

/-- `nexts[LookupClotIndex(clot, sem)]` -/
def clotNext (cl : WaitClot) (k : Nat) : Except Fault (Option WaitObj) :=
  match lookupClotIndex cl.sems k with
  | none => .error .badIndex
  | some i =>
    match cl.nexts[i]? with
    | none => .error .badIndex
    | some next => .ok next

/-- `next_waiting_sem`, or `nexts[LookupClotIndex(clot, sem)]`. -/
def nextOf (s : Kernel) (k : Nat) : WaitObj → Except Fault (Option WaitObj)
  | .thread t => .ok (s.thr t).nextWaitingSem
  | .clot c => do
    let cl ← getClot s c
    clotNext cl k

/-- Assignment to `next_waiting_sem`, or to `nexts[LookupClotIndex(clot, sem)]`. -/
def setNextOf (s : Kernel) (k : Nat) (w : WaitObj) (next : Option WaitObj) :
    Except Fault Kernel :=
  match w with
  | .thread t => .ok (s.setThr t fun th => { th with nextWaitingSem := next })
  | .clot c => do
    let cl ← getClot s c
    match lookupClotIndex cl.sems k with
    | none => .error .badIndex
    | some i =>
      if i < cl.nexts.length then
        .ok (s.setClot c (some { cl with nexts := cl.nexts.set i next }))
      else
        .error .badIndex

/-- Points the last thing on the list to the newly added one. -/
def linkLast (s : Kernel) (toAdd : WaitObj) (k : Nat) : Except Fault Kernel :=
  match (s.sem k).waitingListEnd with
  | none => .ok s
  | some z => setNextOf s k z (some toAdd)

/-- The body of the loop in `AddThreadToSemQueues`. -/
def enqueue (s : Kernel) (toAdd : WaitObj) (k : Nat) : Except Fault Kernel := do
  let s ← linkLast s toAdd k
  .ok (s.setSem k fun sem =>
    { sem with
      waitingListEnd := some toAdd
      waitingListStart := if sem.waitingListStart = none then some toAdd
        else sem.waitingListStart })

/-- The loop in `AddThreadToSemQueues`. -/
def enqueueAll (s : Kernel) (toAdd : WaitObj) : List Nat → Except Fault Kernel
  | [] => .ok s
  | k :: sems => do
    let s ← enqueue s toAdd k
    enqueueAll s toAdd sems

/--
`AddThreadToSemQueues`: 0 or `ENOMEM`. `alloc` is the address of the clot, or `none` when
one of the three allocations of `CreateClot` fails.
-/
def addThreadToSemQueues (s : Kernel) (t : Nat) (sems : List Nat) (alloc : Option Nat) :
    Except Fault (Kernel × Nat) :=
  match sems with
  | [] => .error .badIndex
  | [k] => do
    let s ← enqueueAll (s.setThr t fun th =>
      { th with nextWaitingSem := none, waitingSemOrClot := some (.sem k) }) (.thread t) sems
    .ok (s, 0)
  | _ :: _ :: _ =>
    match alloc with
    | none => .ok (s, eNoMem)
    | some c => do
      let clot : WaitClot := { thr := t, sems, nexts := sems.map fun _ => none }
      let s ← enqueueAll ((s.setClot c (some clot)).setThr t fun th =>
        { th with nextWaitingSem := none, waitingSemOrClot := some (.clot c) }) (.clot c) sems
      .ok (s, 0)

/-- The loop of `CleanupAfterSem` from element 2 of a list. -/
def cleanupFrom (s : Kernel) (k t : Nat) :
    Nat → WaitObj → Option WaitObj → Except Fault Kernel
  | 0, _, _ => .error .outOfFuel
  | _ + 1, _, none => .ok s
  | fuel + 1, prev, some curr => do
    let thr ← waiterOf s curr
    let rhs ← nextOf s k curr
    if thr = t then
      let s ← setNextOf s k prev rhs
      if (s.sem k).waitingListEnd = some curr then
        .ok (s.setSem k fun sem => { sem with waitingListEnd := some prev })
      else
        .ok s
    else
      cleanupFrom s k t fuel curr rhs

/-- `CleanupAfterSem` for one semaphore. -/
def cleanupOne (fuel : Nat) (s : Kernel) (k t : Nat) : Except Fault Kernel :=
  match (s.sem k).waitingListStart with
  | none => .error .nullDeref
  | some head => do
    let thr ← waiterOf s head
    let next ← nextOf s k head
    if thr = t then
      .ok (s.setSem k fun sem =>
        { sem with
          waitingListStart := next
          waitingListEnd := if next = none then none else sem.waitingListEnd })
    else
      cleanupFrom s k t fuel head next

/-- `CleanupAfterSem` -/
def cleanupAfterSem (fuel : Nat) (s : Kernel) (t : Nat) : List Nat → Except Fault Kernel
  | [] => .ok s
  | k :: sems => do
    let s ← cleanupOne fuel s k t
    cleanupAfterSem fuel s t sems

/-- The first part of `CancelSems`; the last reference to a clot is given back. -/
def leaveLists (fuel : Nat) (s : Kernel) (t : Nat) : Except Fault Kernel :=
  match (s.thr t).waitingSemOrClot with
  | none => .error .nullDeref
  | some (.sem k) => cleanupAfterSem fuel s t [k]
  | some (.clot c) => do
    let cl ← getClot s c
    let s ← cleanupAfterSem fuel s t cl.sems
    .ok (s.setClot c none)

/-- `CancelSems` -/
def cancelSems (fuel : Nat) (s : Kernel) (t : Nat) : Except Fault Kernel := do
  let s ← leaveLists fuel s t
  .ok (s.setThr t fun th => { th with waitingSemOrClot := none, nextWaitingSem := none })

/-! ## The timer list -/

/-- The loop of `CancelTimer`: the thread before `t`. -/
def timerBefore (s : Kernel) (t : Nat) : Nat → Option Nat → Except Fault (Option Nat)
  | 0, _ => .error .outOfFuel
  | _ + 1, none => .ok none
  | fuel + 1, some prev =>
    if (s.thr prev).nextWaitingTimer ≠ some t then
      timerBefore s t fuel (s.thr prev).nextWaitingTimer
    else
      .ok (some prev)

/-- The part of `CancelTimer` that takes `t` off the list. -/
def unlinkTimer (fuel : Nat) (s : Kernel) (t : Nat) : Except Fault Kernel :=
  if s.firstWaitingTimer = some t then
    .ok { s with firstWaitingTimer := (s.thr t).nextWaitingTimer }
  else do
    let prev ← timerBefore s t fuel s.firstWaitingTimer
    match prev with
    | none => .ok s
    | some p => .ok (s.setThr p fun th =>
        { th with nextWaitingTimer := (s.thr t).nextWaitingTimer })

/-- The end of `CancelTimer`. -/
def clearTimer (s : Kernel) (t : Nat) : Kernel :=
  let s1 := s.setThr t fun th => { th with nextWaitingTimer := none, wakeupTimeNs := 0 }
  { s1 with
    nextWakeupNs := match s1.firstWaitingTimer with
      | none => 0
      | some f => (s1.thr f).wakeupTimeNs }

/-- `CancelTimer` -/
def cancelTimer (fuel : Nat) (s : Kernel) (t : Nat) : Except Fault Kernel :=
  if (s.thr t).wakeupTimeNs = 0 then
    .ok s
  else do
    let s ← unlinkTimer fuel s t
    .ok (clearTimer s t)

/-- The loop of `AddThreadToSleepQueue`: the thread after which one with `ns` is put. -/
def timerPlace (s : Kernel) (ns : Nat) : Nat → Nat → Except Fault Nat
  | 0, _ => .error .outOfFuel
  | fuel + 1, prev =>
    match (s.thr prev).nextWaitingTimer with
    | none => .ok prev
    | some n => if (s.thr n).wakeupTimeNs ≤ ns then timerPlace s ns fuel n else .ok prev

/-- `thr` is put on the timer list; the list is in the order of `wakeup_time_ns`. -/
def insertTimer (fuel : Nat) (s : Kernel) (t ns : Nat) : Except Fault Kernel :=
  match s.firstWaitingTimer with
  | none => .ok { s.setThr t fun th => { th with nextWaitingTimer := none } with
      firstWaitingTimer := some t }
  | some f =>
    if ns < (s.thr f).wakeupTimeNs then
      .ok { s.setThr t fun th => { th with nextWaitingTimer := some f } with
        firstWaitingTimer := some t }
    else do
      let prev ← timerPlace s ns fuel f
      let s := s.setThr t fun th =>
        { th with nextWaitingTimer := (s.thr prev).nextWaitingTimer }
      .ok (s.setThr prev fun th => { th with nextWaitingTimer := some t })

/-! ## Blocking and waking -/

/-- What `BlockThread` sets on the current thread. -/
def blockThread (s : Kernel) (t : Nat) : Kernel :=
  s.setThr t fun th => { th with blocked := true, blockReturnVal := 0 }

/-- `UnblockThread` ends the wait for semaphores. -/
def endSemWait (fuel : Nat) (s : Kernel) (t : Nat) : Except Fault Kernel :=
  if (s.thr t).waitingSemOrClot ≠ none then cancelSems fuel s t else .ok s

/-- `UnblockThread` ends the wait for a time. -/
def endTimerWait (fuel : Nat) (s : Kernel) (t : Nat) : Except Fault Kernel :=
  if (s.thr t).wakeupTimeNs ≠ 0 then cancelTimer fuel s t else .ok s

/-- `UnblockThread`, up to what the scheduler does with a READY thread. -/
def unblockThread (fuel : Nat) (s : Kernel) (t : Nat) (retv : Int) : Except Fault Kernel := do
  let s ← endSemWait fuel s t
  let s ← endTimerWait fuel s t
  .ok (s.setThr t fun th => { th with blocked := false, blockReturnVal := retv })

/-- `AddThreadToSleepQueue` on the current thread `t`; `false` if the time is past. -/
def addThreadToSleepQueue (fuel : Nat) (s : Kernel) (t : Nat) (relative : Bool) (ns : Nat) :
    Except Fault (Kernel × Bool) :=
  let ns := if relative then (ns + s.nsSinceBoot) % 18446744073709551616 else ns
  if ns ≤ s.nsSinceBoot then
    .ok (s, false)
  else do
    let s : Kernel := { s with
      nextWakeupNs := if s.nextWakeupNs = 0 ∨ ns < s.nextWakeupNs then ns else s.nextWakeupNs }
    let s ← insertTimer fuel (s.setThr t fun th => { th with wakeupTimeNs := ns }) t ns
    .ok (blockThread s t, true)

/-- `DoWakeups` -/
def doWakeups (fuel : Nat) (ns : Nat) : Nat → Kernel → Except Fault Kernel
  | 0, _ => .error .outOfFuel
  | n + 1, s =>
    match s.firstWaitingTimer with
    | none => .ok { s with nextWakeupNs := 0 }
    | some t =>
      if (s.thr t).wakeupTimeNs ≤ ns then do
        let s ← unblockThread fuel
          { s.setThr t fun th => { th with wakeupTimeNs := 0 } with
            firstWaitingTimer := (s.thr t).nextWaitingTimer } t eTimedOut
        doWakeups fuel ns n s
      else
        .ok { s with nextWakeupNs := (s.thr t).wakeupTimeNs }

/-- `AdvanceTimer` -/
def advanceTimer (fuel : Nat) (s : Kernel) (ns : Nat) : Except Fault Kernel :=
  let now := (s.nsSinceBoot + ns) % 18446744073709551616
  let s : Kernel := { s with nsSinceBoot := now }
  if s.nextWakeupNs ≠ 0 ∧ s.nextWakeupNs ≤ now then
    doWakeups fuel now fuel s
  else
    .ok s

/-! ## The calls -/

/-- How a call of `AcquireSemFromMany` ends, or that it has to wait. -/
inductive Outcome where
  | returned (err : Nat) (selected : Option Nat)
  | waits
deriving DecidableEq, Repr

/-- The first loop of `AcquireSemFromMany`: the semaphore it takes a unit of. -/
def firstFree (s : Kernel) : List Nat → Option Nat
  | [] => none
  | k :: sems =>
    if (s.sem k).count < (s.sem k).max then some 0 else (firstFree s sems).map (· + 1)

/-- The timer wait of `AcquireSemFromMany`; `false` if the time is already in the past. -/
def startTimeout (fuel : Nat) (s : Kernel) (t : Nat) (timeout : Int) :
    Except Fault (Kernel × Bool) :=
  if timeout ≠ timeoutInstant ∧ timeout ≠ timeoutInfinite then
    addThreadToSleepQueue fuel s t true (timeout % 18446744073709551616).toNat
  else
    .ok (s, true)

/-- `AcquireSemFromMany` from the test of the timeout on. -/
def waitForMany (fuel : Nat) (s : Kernel) (t : Nat) (sems : List Nat) (timeout : Int)
    (alloc : Option Nat) : Except Fault (Kernel × Outcome) :=
  if timeout = timeoutInstant then
    .ok (s, .returned eAgain none)
  else do
    let (s, added) ← startTimeout fuel s t timeout
    if added = false then
      .ok (s, .returned eAgain none)
    else
      let (s, res) ← addThreadToSemQueues s t sems alloc
      if res ≠ 0 then
        .ok (s, .returned res none)
      else
        .ok (blockThread s t, .waits)

/--
`AcquireSemFromMany` by the current thread `t`. After `ENOMEM` the thread may be on the
timer list, and then it returns when its time is over.
-/
def acquireSemFromMany (fuel : Nat) (s : Kernel) (t : Nat) (sems : List Nat) (timeout : Int)
    (alloc : Option Nat) : Except Fault (Kernel × Outcome) :=
  if s.schedInit = false then
    .ok (s, .returned eInval none)
  else
    match firstFree s sems with
    | some i =>
      match sems[i]? with
      | none => .error .badIndex
      | some k => .ok (s.setSem k fun sem => { sem with count := sem.count + 1 },
          .returned 0 (some i))
    | none => waitForMany fuel s t sems timeout alloc

/-- The end of `AcquireSemFromMany` in a thread that has been woken. -/
def acquireResult (s : Kernel) (t : Nat) : Outcome :=
  if 0 < (s.thr t).blockReturnVal then
    .returned (s.thr t).blockReturnVal.toNat none
  else
    .returned 0 (some (-(s.thr t).blockReturnVal).toNat)

/-- `AcquireSem` -/
def acquireSem (fuel : Nat) (s : Kernel) (t k : Nat) (timeout : Int) :
    Except Fault (Kernel × Outcome) :=
  if s.schedInit = false then
    .ok (s.setSem k fun sem => { sem with count := sem.count + 1 }, .returned 0 none)
  else
    acquireSemFromMany fuel s t [k] timeout none

/-- `-LookupClotIndex(clot, sem)` -/
def clotRetv (cl : WaitClot) (k : Nat) : Int :=
  match lookupClotIndex cl.sems k with
  | none => 1
  | some i => -(i : Int)

/-- `ReleaseSem` -/
def releaseSem (fuel : Nat) (s : Kernel) (k : Nat) : Except Fault Kernel :=
  if s.schedInit = false then
    .ok (s.setSem k fun sem => { sem with count := sem.count - 1 })
  else if (s.sem k).count = (s.sem k).max then
    match (s.sem k).waitingListStart with
    | none => .ok (s.setSem k fun sem => { sem with count := sem.count - 1 })
    | some (.thread t) => unblockThread fuel s t 0
    | some (.clot c) => do
      let cl ← getClot s c
      unblockThread fuel s cl.thr (clotRetv cl k)
  else
    .ok (s.setSem k fun sem => { sem with count := sem.count - 1 })

/-- The test in the loop of `AbandonSemLocked` after a thread has been woken. -/
def leaveHead (fuel : Nat) (s : Kernel) (k t : Nat) (head : WaitObj) : Except Fault Kernel :=
  if (s.sem k).waitingListStart = some head then cancelSems fuel s t else .ok s

/-- `AbandonSemLocked` -/
def abandonSemLocked (fuel : Nat) (k : Nat) : Nat → Kernel → Except Fault Kernel
  | 0, _ => .error .outOfFuel
  | n + 1, s =>
    match (s.sem k).waitingListStart with
    | none => .ok s
    | some head => do
      let t ← waiterOf s head
      let s ← unblockThread fuel s t eAbandoned
      let s ← leaveHead fuel s k t head
      abandonSemLocked fuel k n s

/-- `AbandonSem` -/
def abandonSem (fuel : Nat) (s : Kernel) (k : Nat) : Except Fault Kernel :=
  abandonSemLocked fuel k fuel s

end Nolrem.Sync
