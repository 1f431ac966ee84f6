import Nolrem.Lib.Transition
import Nolrem.Sync.Sleep

/-!
# The interrupt of the floppy controller

`FloppyIrqHandler`, `FloppyIrqArm` and `FloppyIrqWait` of `kernel/arch/x86/dev/floppy.c`. One
thread, which holds `floppy_lock`, and the interrupt handler share the flag `floppy_irq_armed` and
the mutex `floppy_irq_mutex`. Each exchange of the flag and each operation on the mutex is one step.
-/

namespace Nolrem.Dev.FloppyIrq

open Nolrem.Lib Nolrem.Sync

/-! ## The mutex -/

/-- Thread `t` runs: it waits for nothing. -/
structure Awake (K : Kernel) (t : Nat) : Prop where
  blocked : (K.thr t).blocked = false
  waiting : (K.thr t).waitingSemOrClot = none
  wakeup : (K.thr t).wakeupTimeNs = 0

/-- A mutex with its count, on whose list nobody is -/
def mutexAt (count : Int) : Sem := ⟨count, 1, none, none⟩

/-- The mutex is free (0) or held (1), and `t` runs. -/
structure Quiet (K : Kernel) (k t : Nat) (count : Int) : Prop where
  init : K.schedInit = true
  mutex : K.sem k = mutexAt count
  awake : Awake K t

/-- The mutex is held and `t` waits for it. -/
structure Waiting (K : Kernel) (k t : Nat) : Prop where
  init : K.schedInit = true
  mutex : K.sem k = ⟨1, 1, some (.thread t), some (.thread t)⟩
  blocked : (K.thr t).blocked = true
  waiting : (K.thr t).waitingSemOrClot = some (.sem k)
  next : (K.thr t).nextWaitingSem = none

/-- Nothing but the timers has changed. -/
structure OnlyTimers (K K' : Kernel) : Prop where
  thr : ∀ u, ∃ next w, K'.thr u =
    { K.thr u with nextWaitingTimer := next, wakeupTimeNs := w }
  sem : K'.sem = K.sem
  init : K'.schedInit = K.schedInit

variable {K K' : Kernel} {k t fuel : Nat}

theorem OnlyTimers.refl (K : Kernel) : OnlyTimers K K := ⟨fun _ => ⟨_, _, rfl⟩, rfl, rfl⟩

theorem OnlyTimers.trans {K'' : Kernel} (h : OnlyTimers K K') (h' : OnlyTimers K' K'') :
    OnlyTimers K K'' := by
  refine ⟨fun u => ?_, h'.sem.trans h.sem, h'.init.trans h.init⟩
  obtain ⟨n, w, hn⟩ := h.thr u
  obtain ⟨n', w', hn'⟩ := h'.thr u
  exact ⟨n', w', by rw [hn', hn]⟩

/-- A write to the timer fields of one thread -/
theorem OnlyTimers.setThr (K : Kernel) (t : Nat) {f : Thread → Thread}
    (hf : ∀ th, ∃ next w, f th = { th with nextWaitingTimer := next, wakeupTimeNs := w }) :
    OnlyTimers K (K.setThr t f) := by
  refine ⟨fun u => ?_, rfl, rfl⟩
  by_cases hu : u = t
  · subst hu
    simpa using hf (K.thr u)
  · exact ⟨_, _, by simp [hu]; rfl⟩

theorem insertTimer_onlyTimers (K : Kernel) (t ns fuel : Nat) :
    Ends (insertTimer fuel K t ns) (OnlyTimers K) fun _ => True := by
  have hset : ∀ K u next,
      OnlyTimers K (K.setThr u fun th => { th with nextWaitingTimer := next }) :=
    fun K u next => .setThr K u fun th => ⟨next, th.wakeupTimeNs, rfl⟩
  unfold insertTimer
  split
  · exact ⟨(hset K t none).thr, rfl, rfl⟩
  · next f _ =>
    split
    · exact ⟨(hset K t (some f)).thr, rfl, rfl⟩
    · refine Ends.bind (P := fun _ => True) (E := fun _ => True) ?_ fun prev _ => ?_
      · cases timerPlace K ns fuel f <;> trivial
      · exact (hset _ _ _).trans (hset _ _ _)

theorem cancelTimer_onlyTimers (K : Kernel) (t fuel : Nat) :
    Ends (cancelTimer fuel K t)
      (fun K' => OnlyTimers K K' ∧ (K'.thr t).wakeupTimeNs = 0) fun _ => True := by
  unfold cancelTimer
  split
  · next h0 => exact ⟨.refl K, h0⟩
  · refine Ends.bind (P := OnlyTimers K) (E := fun _ => True) ?_ fun K₁ h₁ => ?_
    · unfold unlinkTimer
      split
      · exact ⟨fun u => ⟨_, _, rfl⟩, rfl, rfl⟩
      · refine Ends.bind (P := fun _ => True) (E := fun _ => True) ?_ fun prev _ => ?_
        · cases timerBefore K t fuel K.firstWaitingTimer <;> trivial
        · cases prev with
          | none => exact .refl K
          | some p => exact .setThr K p fun th => ⟨_, th.wakeupTimeNs, rfl⟩
    · have hclear : OnlyTimers K₁ (K₁.setThr t fun th =>
          { th with nextWaitingTimer := none, wakeupTimeNs := 0 }) :=
        .setThr K₁ t fun th => ⟨none, 0, rfl⟩
      refine ⟨h₁.trans ⟨hclear.thr, rfl, rfl⟩, ?_⟩
      simp [clearTimer]

theorem endTimerWait_onlyTimers (K : Kernel) (t fuel : Nat) :
    Ends (endTimerWait fuel K t)
      (fun K' => OnlyTimers K K' ∧ (K'.thr t).wakeupTimeNs = 0) fun _ => True := by
  unfold endTimerWait
  split
  · exact cancelTimer_onlyTimers K t fuel
  · next h0 => exact ⟨.refl K, not_not.mp h0⟩

/-! ## Taking and giving back -/

/-- A free mutex is taken at once. -/
theorem Quiet.acquire_free (h : Quiet K k t 0) (fuel : Nat) (timeout : Int) :
    ∃ K', acquireSem fuel K t k timeout = .ok (K', .returned 0 (some 0)) ∧ Quiet K' k t 1 := by
  have hfree : firstFree K [k] = some 0 := by
    simp [firstFree, h.mutex, mutexAt]
  refine ⟨K.setSem k fun sem => { sem with count := sem.count + 1 }, ?_, ?_⟩
  · unfold acquireSem acquireSemFromMany
    rw [h.init, hfree]
    rfl
  · refine ⟨h.init, ?_, h.awake.blocked, h.awake.waiting, h.awake.wakeup⟩
    simp [Kernel.setSem, h.mutex, mutexAt]

theorem Quiet.release (h : Quiet K k t 1) (fuel : Nat) :
    ∃ K', releaseSem fuel K k = .ok K' ∧ Quiet K' k t 0 ∧ K'.thr = K.thr := by
  refine ⟨K.setSem k fun sem => { sem with count := sem.count - 1 }, ?_,
    ⟨h.init, ?_, h.awake.blocked, h.awake.waiting, h.awake.wakeup⟩, rfl⟩
  · unfold releaseSem
    rw [h.init, h.mutex]
    rfl
  · simp [Kernel.setSem, h.mutex, mutexAt]

/-- Whoever waits for the mutex leaves its list when it is woken, whatever the reason. -/
theorem Waiting.unblock (h : Waiting K k t) (retv : Int) :
    Ends (unblockThread fuel K t retv)
      (fun K' => Quiet K' k t 1 ∧ (K'.thr t).blockReturnVal = retv) fun _ => True := by
  have hleave : endSemWait fuel K t = .ok ((K.setSem k fun sem =>
      { sem with waitingListStart := none, waitingListEnd := none }).setThr t fun th =>
      { th with waitingSemOrClot := none, nextWaitingSem := none }) := by
    unfold endSemWait cancelSems leaveLists cleanupAfterSem cleanupOne
    rw [h.waiting]
    simp [h.mutex, h.next, waiterOf, nextOf, cleanupAfterSem, bind, Except.bind]
  unfold unblockThread
  rw [hleave]
  refine (endTimerWait_onlyTimers _ t fuel).bind ?_
  rintro K₂ ⟨htimers, hwakeup⟩
  obtain ⟨next, w, hn⟩ := htimers.thr t
  rw [hn] at hwakeup
  refine ⟨⟨htimers.init.trans h.init, ?_, ?_, ?_, ?_⟩, ?_⟩
  · change K₂.sem k = _
    rw [htimers.sem]
    simp [Kernel.setSem, h.mutex, mutexAt]
  · simp
  · simp [hn]
  · simpa [hn] using hwakeup
  · simp

/-- Who waits for the mutex is given it. -/
theorem Waiting.release (h : Waiting K k t) :
    Ends (releaseSem fuel K k)
      (fun K' => Quiet K' k t 1 ∧ (K'.thr t).blockReturnVal = 0) fun _ => True := by
  have heq : releaseSem fuel K k = unblockThread fuel K t 0 := by
    unfold releaseSem
    rw [h.init, h.mutex]
    rfl
  rw [heq]
  exact h.unblock 0

/-- The wait is over without the mutex. -/
theorem Waiting.timeout (h : Waiting K k t) :
    Ends (unblockThread fuel (Sleep.popHead K t) t eTimedOut)
      (fun K' => Quiet K' k t 1 ∧ (K'.thr t).blockReturnVal = eTimedOut) fun _ => True := by
  have hpop : Waiting (Sleep.popHead K t) k t := by
    refine ⟨h.init, h.mutex, ?_, ?_, ?_⟩
    · simp [Sleep.popHead, h.blocked]
    · simp [Sleep.popHead, h.waiting]
    · simp [Sleep.popHead, h.next]
  exact hpop.unblock eTimedOut

/-- A thread that starts a timeout is on no waiting list yet. -/
theorem startTimeout_onlyTimers (hinit : K.schedInit = true) (timeout : Int) :
    Ends (startTimeout fuel K t timeout)
      (fun r => (r.2 = true ∧ r.1.sem = K.sem ∧ r.1.schedInit = true) ∨ (r.2 = false ∧ r.1 = K))
      fun _ => True := by
  unfold startTimeout
  split
  · unfold addThreadToSleepQueue
    simp only [↓reduceIte]
    split
    · exact .inr ⟨rfl, rfl⟩
    · refine (insertTimer_onlyTimers _ _ _ _).bind fun K₁ h₁ => ?_
      exact .inl ⟨rfl, h₁.sem, h₁.init.trans hinit⟩
  · exact .inl ⟨rfl, rfl, hinit⟩

/-- The list of the mutex is empty, so the thread becomes its head and its end. -/
theorem enqueue_mutex (hinit : K.schedInit = true) (hmutex : K.sem k = mutexAt 1) :
    Ends (addThreadToSemQueues K t [k] none)
      (fun r => r.2 = 0 ∧ Waiting (blockThread r.1 t) k t) fun _ => True := by
  have hend : (K.sem k).waitingListEnd = none := by rw [hmutex]; rfl
  have hstart : (K.sem k).waitingListStart = none := by rw [hmutex]; rfl
  simp only [addThreadToSemQueues, enqueueAll, enqueue, linkLast, Kernel.setThr, hend, bind,
    Except.bind]
  refine ⟨rfl, hinit, ?_, ?_, ?_, ?_⟩
  · simp [blockThread, Kernel.setSem, hmutex, mutexAt]
  · simp [blockThread, Kernel.setSem]
  · simp [blockThread, Kernel.setSem]
  · simp [blockThread, Kernel.setSem]

/-- A held mutex: the thread waits, or the call fails at once. -/
theorem Quiet.acquire_held (h : Quiet K k t 1) (timeout : Int) :
    Ends (acquireSem fuel K t k timeout)
      (fun r => (r.2 = .waits ∧ Waiting r.1 k t) ∨ (r.2 = .returned eAgain none ∧ Quiet r.1 k t 1))
      fun _ => True := by
  have htaken : firstFree K [k] = none := by
    simp [firstFree, h.mutex, mutexAt]
  unfold acquireSem acquireSemFromMany waitForMany
  rw [h.init, htaken]
  dsimp only
  rw [if_neg (by decide)]
  split
  · contradiction
  · split
    · exact .inr ⟨rfl, h⟩
    · -- the thread goes on the timer list first
      refine (startTimeout_onlyTimers h.init timeout).bind ?_
      rintro ⟨K₁, added⟩ (⟨rfl, hsem, hinit⟩ | ⟨rfl, rfl⟩)
      · have hmutex : K₁.sem k = mutexAt 1 := (congrFun hsem k).trans h.mutex
        refine (enqueue_mutex hinit hmutex).bind ?_
        rintro ⟨K₂, res⟩ ⟨rfl, hwaiting⟩
        exact .inl ⟨rfl, hwaiting⟩
      · exact .inr ⟨rfl, h⟩

/-! ## The handshake -/

/-- Where the thread is in `FloppyIrqArm` or `FloppyIrqWait`, or between them -/
inductive ThreadAt where
  /-- No command yet -/
  | idle
  /-- The exchange has found the flag set. -/
  | armRelease
  | armAcquire
  /-- Blocked in the `AcquireMutex` of `FloppyIrqArm` -/
  | armBlocked
  | armStore
  /-- `FloppyIrqArm` has returned. What follows is `FloppyIrqWait`, or the command is abandoned. -/
  | armed
  | waitBlocked
  /-- `AcquireMutex` has not returned 0. -/
  | waitFailed
  /-- The exchange has found the flag set. -/
  | waitTimedOut
  /-- `AcquireMutex` has returned 0. -/
  | waitGot
  | returned (err : Nat)
deriving DecidableEq, Repr

/-- The mutex is semaphore `k` of the kernel, and thread `t` holds `floppy_lock`. -/
structure Handshake where
  kernel : Kernel
  /-- `floppy_irq_armed` -/
  armed : Bool
  needReset : Bool
  thread : ThreadAt
  /-- The handler has found the flag set, and its `ReleaseMutex` comes next. -/
  handling : Bool
  /-- An interrupt has come since the flag was last set. -/
  irq : Bool

/-- A new command begins before the first one, after a wait, or after a command was abandoned. -/
def ThreadAt.Between : ThreadAt → Prop
  | .idle | .armed | .returned _ => True
  | _ => False

/-- Where `FloppyIrqWait` goes on after its `AcquireMutex` -/
def afterAcquire : Outcome → ThreadAt
  | .waits => .waitBlocked
  | .returned err _ => if err ≠ 0 then .waitFailed else .waitGot

/-- `MS_TO_NS` -/
def msToNs (ms : Nat) : Int := ms * 1000 * 1000

/-- The steps of the thread, in the order of the source -/
inductive ThreadStep (k t : Nat) (s : Handshake) : Handshake → Prop
  | armExchange : s.thread.Between →
      ThreadStep k t s
        { s with armed := false, thread := if s.armed then .armRelease else .armAcquire }
  | armRelease {fuel : Nat} {kernel : Kernel} : s.thread = .armRelease →
      releaseSem fuel s.kernel k = .ok kernel →
      ThreadStep k t s { s with kernel, thread := .armAcquire }
  | armAcquire {fuel : Nat} {kernel : Kernel} {err : Nat} {i : Option Nat} :
      s.thread = .armAcquire →
      acquireSem fuel s.kernel t k timeoutInfinite = .ok (kernel, .returned err i) →
      ThreadStep k t s { s with kernel, thread := .armStore }
  | armBlock {fuel : Nat} {kernel : Kernel} : s.thread = .armAcquire →
      acquireSem fuel s.kernel t k timeoutInfinite = .ok (kernel, .waits) →
      ThreadStep k t s { s with kernel, thread := .armBlocked }
  | armWoken : s.thread = .armBlocked → (s.kernel.thr t).blocked = false →
      ThreadStep k t s { s with thread := .armStore }
  | armStore : s.thread = .armStore →
      ThreadStep k t s { s with armed := true, thread := .armed, irq := false }
  | waitAcquire {fuel timeoutMs : Nat} {kernel : Kernel} {out : Outcome} : s.thread = .armed →
      acquireSem fuel s.kernel t k (msToNs timeoutMs) = .ok (kernel, out) →
      ThreadStep k t s { s with kernel, thread := afterAcquire out }
  | waitWoken : s.thread = .waitBlocked → (s.kernel.thr t).blocked = false →
      ThreadStep k t s { s with thread := afterAcquire (acquireResult s.kernel t) }
  | waitExchange : s.thread = .waitFailed →
      ThreadStep k t s
        { s with armed := false, thread := if s.armed then .waitTimedOut else .returned 0 }
  | waitTimedOut {fuel : Nat} {kernel : Kernel} : s.thread = .waitTimedOut →
      releaseSem fuel s.kernel k = .ok kernel →
      ThreadStep k t s { s with kernel, needReset := true, thread := .returned eTimedOut }
  | waitGot {fuel : Nat} {kernel : Kernel} : s.thread = .waitGot →
      releaseSem fuel s.kernel k = .ok kernel →
      ThreadStep k t s { s with kernel, thread := .returned 0 }

/-- `FloppyIrqHandler`. The controller of the interrupts sends no other before it has ended. -/
inductive HandlerStep (k : Nat) (s : Handshake) : Handshake → Prop
  | exchange : s.handling = false →
      HandlerStep k s { s with armed := false, handling := s.armed, irq := true }
  | release {fuel : Nat} {kernel : Kernel} : s.handling = true →
      releaseSem fuel s.kernel k = .ok kernel →
      HandlerStep k s { s with kernel, handling := false }

/-- What the rest of the kernel leaves alone: the mutex, and what `t` waits for -/
structure Undisturbed (k t : Nat) (K K' : Kernel) : Prop where
  init : K'.schedInit = K.schedInit
  mutex : K'.sem k = K.sem k
  thr : ∃ next, K'.thr t = { K.thr t with nextWaitingTimer := next }

/-- The timeout of the thread, and whatever other threads do -/
inductive KernelStep (k t : Nat) (s : Handshake) : Handshake → Prop
  /-- `DoWakeups` finds the thread. -/
  | timeout {fuel : Nat} {kernel : Kernel} : (s.kernel.thr t).wakeupTimeNs ≠ 0 →
      unblockThread fuel (Sleep.popHead s.kernel t) t eTimedOut = .ok kernel →
      KernelStep k t s { s with kernel }
  | others {kernel : Kernel} : Undisturbed k t s.kernel kernel →
      KernelStep k t s { s with kernel }

/-- Every interleaving -/
def Step (k t : Nat) (s s' : Handshake) : Prop :=
  ThreadStep k t s s' ∨ HandlerStep k s s' ∨ KernelStep k t s s'

/-- The thread does not run between the two steps of the handler. So it is on one CPU, where the
handler runs with interrupts off. -/
def StepHandlerFirst (k t : Nat) (s s' : Handshake) : Prop :=
  (ThreadStep k t s s' ∧ s.handling = false) ∨ HandlerStep k s s' ∨ KernelStep k t s s'

/-- After `CreateMutex`, before the first command -/
structure Start (k t : Nat) (s : Handshake) : Prop where
  mutex : Quiet s.kernel k t 0
  armed : s.armed = false
  thread : s.thread = .idle
  handling : s.handling = false

/-- Somebody is about to call `ReleaseMutex`. -/
def Releasing (s : Handshake) : Prop :=
  s.handling = true ∨ s.thread = .armRelease ∨ s.thread = .waitTimedOut ∨ s.thread = .waitGot

/-- What the handshake promises of every state -/
structure Safe (k t : Nat) (s : Handshake) : Prop where
  count : (s.kernel.sem k).count = 0 ∨ (s.kernel.sem k).count = 1
  /-- The mutex is not released while it is free. -/
  release : Releasing s → (s.kernel.sem k).count = 1
  notBlocked : s.thread ≠ .armBlocked
  /-- The `AcquireMutex` of `FloppyIrqArm` returns. -/
  arm : s.thread = .armAcquire → ∀ fuel, ∃ kernel,
    acquireSem fuel s.kernel t k timeoutInfinite = .ok (kernel, .returned 0 (some 0))
  irq : s.thread = .returned 0 → s.irq = true
  returned : ∀ err, s.thread = .returned err →
    (s.kernel.sem k).count = 0 ∧ s.armed = false ∧ s.handling = false

/-! ## The invariant -/

/-- The interrupt has not come, or the handler has not released the mutex yet. -/
def Owed (s : Handshake) : Prop := s.armed = true ∨ s.handling = true

/-- The thread is awake with the result of its wait. -/
def Woken (k t : Nat) (s : Handshake) (count retv : Int) : Prop :=
  Quiet s.kernel k t count ∧ (s.kernel.thr t).blockReturnVal = retv

/-- Who holds the mutex, at each place of the thread -/
def Books (k t : Nat) (s : Handshake) : Prop :=
  match s.thread with
  | .idle => Quiet s.kernel k t 0 ∧ ¬ Owed s
  | .armRelease => Quiet s.kernel k t 1 ∧ ¬ Owed s
  | .armAcquire => Quiet s.kernel k t 0 ∧ ¬ Owed s
  | .armBlocked => False
  | .armStore => Quiet s.kernel k t 1 ∧ ¬ Owed s
  | .armed | .waitFailed =>
    (Quiet s.kernel k t 1 ∧ Owed s) ∨ (Quiet s.kernel k t 0 ∧ ¬ Owed s ∧ s.irq = true)
  | .waitBlocked =>
    ((Waiting s.kernel k t ∨ Woken k t s 1 eTimedOut) ∧ Owed s) ∨
      ((Woken k t s 1 0 ∨ Woken k t s 0 eTimedOut) ∧ ¬ Owed s ∧ s.irq = true)
  | .waitTimedOut => Quiet s.kernel k t 1 ∧ ¬ Owed s
  | .waitGot => Quiet s.kernel k t 1 ∧ ¬ Owed s ∧ s.irq = true
  | .returned err => Quiet s.kernel k t 0 ∧ ¬ Owed s ∧ (err = 0 → s.irq = true)

structure Inv (k t : Nat) (s : Handshake) : Prop where
  books : Books k t s
  /-- The flag is not set while the handler is between its steps. -/
  handling : s.handling = true → s.armed = false ∧ s.irq = true

variable {s s' : Handshake} {c r : Int}

theorem Start.inv (h : Start k t s) : Inv k t s where
  books := by
    rw [Books, h.thread]
    refine ⟨h.mutex, ?_⟩
    simp [Owed, h.armed, h.handling]
  handling := by simp [h.handling]

/-- The books do not change when the flag passes from the driver to the handler. -/
theorem Books.congr (h : Books k t s) (hthread : s'.thread = s.thread)
    (hkernel : s'.kernel = s.kernel) (howed : Owed s' ↔ Owed s) (hirq : s'.irq = true) :
    Books k t s' := by
  unfold Books at h ⊢
  rw [hthread]
  cases hs : s.thread <;> simp only [hs, Woken, hkernel, howed, hirq] at h ⊢ <;> tauto

theorem Undisturbed.quiet (h : Undisturbed k t K K') (hq : Quiet K k t c) :
    Quiet K' k t c := by
  obtain ⟨next, hn⟩ := h.thr
  refine ⟨h.init.trans hq.init, h.mutex.trans hq.mutex, ?_, ?_, ?_⟩
  · rw [hn]
    exact hq.awake.blocked
  · rw [hn]
    exact hq.awake.waiting
  · rw [hn]
    exact hq.awake.wakeup

theorem Undisturbed.waiting (h : Undisturbed k t K K') (hw : Waiting K k t) : Waiting K' k t := by
  obtain ⟨next, hn⟩ := h.thr
  refine ⟨h.init.trans hw.init, h.mutex.trans hw.mutex, ?_, ?_, ?_⟩
  · rw [hn]
    exact hw.blocked
  · rw [hn]
    exact hw.waiting
  · rw [hn]
    exact hw.next

theorem Undisturbed.woken {kernel : Kernel} (h : Undisturbed k t s.kernel kernel)
    (hw : Woken k t s c r) : Woken k t { s with kernel } c r := by
  obtain ⟨next, hn⟩ := h.thr
  refine ⟨h.quiet hw.1, ?_⟩
  rw [hn]
  exact hw.2

/-- The thread is awake, or waits in `FloppyIrqWait`. -/
theorem Books.quiet_or_waiting (h : Books k t s) :
    Quiet s.kernel k t 0 ∨ Quiet s.kernel k t 1 ∨
      (s.thread = .waitBlocked ∧ Waiting s.kernel k t ∧ Owed s) := by
  unfold Books at h
  cases hs : s.thread <;> simp only [hs] at h
  case waitBlocked =>
    obtain ⟨hw | hw, ho⟩ | ⟨hw | hw, -⟩ := h
    · exact .inr (.inr ⟨rfl, hw, ho⟩)
    · exact .inr (.inl hw.1)
    · exact .inr (.inl hw.1)
    · exact .inl hw.1
  case armed | waitFailed =>
    rcases h with h | h
    · exact .inr (.inl h.1)
    · exact .inl h.1
  case armRelease | armStore | waitTimedOut | waitGot => exact .inr (.inl h.1)
  case idle | armAcquire | returned => exact .inl h.1

theorem Inv.kernel (h : Inv k t s) (hstep : KernelStep k t s s') : Inv k t s' := by
  refine ⟨?_, ?_⟩
  · have hbooks := h.books
    cases hstep with
    | timeout hwakeup hunblock =>
      obtain hq | hq | ⟨hthread, hw, howed⟩ := hbooks.quiet_or_waiting
      · exact absurd hq.awake.wakeup hwakeup
      · exact absurd hq.awake.wakeup hwakeup
      · unfold Books
        simp only [hthread]
        exact .inl ⟨.inr (hw.timeout.of_ok hunblock), howed⟩
    | others hother =>
      unfold Books at hbooks ⊢
      dsimp only
      cases hs : s.thread <;> simp only [hs] at hbooks ⊢
      case waitBlocked =>
        refine hbooks.imp (fun hb => ⟨hb.1.imp hother.waiting hother.woken, hb.2⟩)
          fun hb => ⟨hb.1.imp hother.woken hother.woken, hb.2⟩
      case armed | waitFailed =>
        exact hbooks.imp (fun hb => ⟨hother.quiet hb.1, hb.2⟩) fun hb => ⟨hother.quiet hb.1, hb.2⟩
      all_goals exact ⟨hother.quiet hbooks.1, hbooks.2⟩
  · cases hstep <;> exact h.handling

theorem Inv.handler (h : Inv k t s) (hstep : HandlerStep k s s') : Inv k t s' := by
  cases hstep with
  | exchange hidle =>
    refine ⟨h.books.congr rfl rfl ?_ rfl, fun _ => ⟨rfl, rfl⟩⟩
    simp [Owed, hidle]
  | @release fuel kernel hhandling hrelease =>
    obtain ⟨harmed, hirq⟩ := h.handling hhandling
    have howed : Owed s := .inr hhandling
    have hpaid : ¬ Owed { s with kernel, handling := false } := by simp [Owed, harmed]
    have hquiet : Quiet s.kernel k t 1 → Quiet kernel k t 0 ∧ kernel.thr = s.kernel.thr := by
      intro hq
      obtain ⟨kernel', hk, hq', hthr⟩ := hq.release fuel
      rw [hrelease] at hk
      rw [Except.ok.inj hk]
      exact ⟨hq', hthr⟩
    refine ⟨?_, fun hf => by cases hf⟩
    have hbooks := h.books
    unfold Books at hbooks ⊢
    dsimp only
    cases hs : s.thread <;> simp only [hs, howed, not_true, and_false, false_and, or_false,
      and_true] at hbooks ⊢
    case waitBlocked =>
      refine .inr ⟨?_, hpaid, hirq⟩
      rcases hbooks with hw | ⟨hq, hret⟩
      · exact .inl (hw.release.of_ok hrelease)
      · refine .inr ⟨(hquiet hq).1, ?_⟩
        rw [(hquiet hq).2]
        exact hret
    case armed | waitFailed => exact .inr ⟨(hquiet hbooks).1, hpaid, hirq⟩

/-- A free mutex and a flag that is not set let a new command begin. -/
theorem Books.between (h : Books k t s) (hbetween : s.thread.Between) (hidle : s.handling = false) :
    (s.armed = true ∧ Quiet s.kernel k t 1) ∨ (s.armed = false ∧ Quiet s.kernel k t 0) := by
  unfold Books at h
  cases hs : s.thread <;> rw [hs] at hbetween <;> try exact hbetween.elim
  case armed =>
    simp only [hs, Owed, hidle, Bool.false_eq_true, or_false, Bool.not_eq_true] at h
    exact h.imp (fun h => ⟨h.2, h.1⟩) fun h => ⟨h.2.1, h.1⟩
  all_goals
    simp only [hs, Owed, hidle, Bool.false_eq_true, or_false, Bool.not_eq_true] at h
  case idle => exact .inr ⟨h.2, h.1⟩
  case returned => exact .inr ⟨h.2.1, h.1⟩

theorem Quiet.release_eq {kernel : Kernel} (h : Quiet K k t 1)
    (hrelease : releaseSem fuel K k = .ok kernel) : Quiet kernel k t 0 := by
  obtain ⟨kernel', hk, hq, -⟩ := h.release fuel
  rw [hrelease] at hk
  rw [Except.ok.inj hk]
  exact hq

theorem Inv.thread (h : Inv k t s) (hidle : s.handling = false) (hstep : ThreadStep k t s s') :
    Inv k t s' := by
  have hbooks := h.books
  -- the handler is not between its steps, so only the flag says who is to release
  have howed : Owed s ↔ s.armed = true := by simp [Owed, hidle]
  cases hstep with
  | armExchange hbetween =>
    refine ⟨?_, fun hf => by simp [hidle] at hf⟩
    unfold Books
    rcases hbooks.between hbetween hidle with ⟨harmed, hq⟩ | ⟨harmed, hq⟩
    · simp [harmed, Owed, hidle, hq]
    · simp [harmed, Owed, hidle, hq]
  | armRelease hs hrelease =>
    unfold Books at hbooks
    simp only [hs] at hbooks
    exact ⟨⟨hbooks.1.release_eq hrelease, hbooks.2⟩, h.handling⟩
  | @armAcquire fuel kernel err i hs hacquire =>
    unfold Books at hbooks
    simp only [hs] at hbooks
    obtain ⟨kernel', hk, hq⟩ := hbooks.1.acquire_free fuel timeoutInfinite
    rw [hacquire] at hk
    obtain ⟨rfl, -⟩ := Prod.ext_iff.mp (Except.ok.inj hk)
    exact ⟨⟨hq, hbooks.2⟩, h.handling⟩
  | @armBlock fuel kernel hs hacquire =>
    unfold Books at hbooks
    simp only [hs] at hbooks
    obtain ⟨kernel', hk, -⟩ := hbooks.1.acquire_free fuel timeoutInfinite
    rw [hacquire] at hk
    cases hk
  | armWoken hs _ =>
    unfold Books at hbooks
    simp only [hs] at hbooks
  | armStore hs =>
    unfold Books at hbooks
    simp only [hs] at hbooks
    exact ⟨.inl ⟨hbooks.1, .inl rfl⟩, fun hf => by simp [hidle] at hf⟩
  | @waitAcquire fuel timeoutMs kernel out hs hacquire =>
    refine ⟨?_, h.handling⟩
    unfold Books at hbooks
    simp only [hs] at hbooks
    rcases hbooks with ⟨hq, ho⟩ | ⟨hq, hpaid, hirq⟩
    · -- the interrupt has not come yet
      rcases (hq.acquire_held (msToNs timeoutMs)).of_ok hacquire with
        ⟨hout, hw⟩ | ⟨hout, hq'⟩
      · dsimp only at hout
        rw [hout]
        exact .inl ⟨.inl hw, ho⟩
      · dsimp only at hout
        rw [hout]
        exact .inl ⟨hq', ho⟩
    · obtain ⟨kernel', hk, hq'⟩ := hq.acquire_free fuel (msToNs timeoutMs)
      rw [hacquire] at hk
      obtain ⟨rfl, hout⟩ := Prod.ext_iff.mp (Except.ok.inj hk)
      dsimp only at hout
      rw [hout]
      exact ⟨hq', hpaid, hirq⟩
  | waitWoken hs hawake =>
    refine ⟨?_, h.handling⟩
    unfold Books at hbooks
    simp only [hs] at hbooks
    have hres : ∀ retv, (s.kernel.thr t).blockReturnVal = retv →
        afterAcquire (acquireResult s.kernel t) =
          if 0 < retv then .waitFailed else .waitGot := by
      rintro retv rfl
      unfold acquireResult
      split
      · next hpos =>
        exact if_pos (by omega)
      · rfl
    rcases hbooks with ⟨hw | ⟨hq, hret⟩, ho⟩ | ⟨⟨hq, hret⟩ | ⟨hq, hret⟩, hpaid, hirq⟩
    · rw [hw.blocked] at hawake
      cases hawake
    · rw [hres _ hret, if_pos (by decide)]
      exact .inl ⟨hq, ho⟩
    · rw [hres _ hret, if_neg (by decide)]
      exact ⟨hq, hpaid, hirq⟩
    · rw [hres _ hret, if_pos (by decide)]
      exact .inr ⟨hq, hpaid, hirq⟩
  | waitExchange hs =>
    refine ⟨?_, fun hf => by simp [hidle] at hf⟩
    unfold Books at hbooks ⊢
    simp only [hs, howed] at hbooks
    rcases hbooks with ⟨hq, harmed⟩ | ⟨hq, hnot, hirq⟩
    · simp [harmed, Owed, hidle, hq]
    · simp [hnot, Owed, hidle, hq, hirq]
  | waitTimedOut hs hrelease =>
    unfold Books at hbooks
    simp only [hs] at hbooks
    exact ⟨⟨hbooks.1.release_eq hrelease, hbooks.2, fun he => by cases he⟩, h.handling⟩
  | waitGot hs hrelease =>
    unfold Books at hbooks
    simp only [hs] at hbooks
    exact ⟨⟨hbooks.1.release_eq hrelease, hbooks.2.1, fun _ => hbooks.2.2⟩, h.handling⟩

theorem Inv.step (h : Inv k t s) (hstep : StepHandlerFirst k t s s') : Inv k t s' := by
  rcases hstep with ⟨hthread, hidle⟩ | hhandler | hkernel
  · exact h.thread hidle hthread
  · exact h.handler hhandler
  · exact h.kernel hkernel

theorem Quiet.sem_count (h : Quiet K k t c) : (K.sem k).count = c := by
  rw [h.mutex]
  rfl

theorem Waiting.sem_count (h : Waiting K k t) : (K.sem k).count = 1 := by rw [h.mutex]

/-- As long as an interrupt can release the mutex, it is held. -/
theorem Books.held_of_owed (h : Books k t s) (howed : Owed s) : (s.kernel.sem k).count = 1 := by
  unfold Books at h
  cases hs : s.thread <;> simp only [hs, howed, not_true, and_false, false_and, or_false,
    and_true] at h
  case waitBlocked =>
    rcases h with hw | hw
    · exact hw.sem_count
    · exact hw.1.sem_count
  case armed | waitFailed => exact h.sem_count

theorem Inv.safe (h : Inv k t s) : Safe k t s := by
  have hbooks := h.books
  constructor
  · obtain hq | hq | ⟨-, hw, -⟩ := hbooks.quiet_or_waiting
    · exact .inl hq.sem_count
    · exact .inr hq.sem_count
    · exact .inr hw.sem_count
  · rintro (hhandling | hs | hs | hs)
    · exact hbooks.held_of_owed (.inr hhandling)
    all_goals
      simp only [Books, hs] at hbooks
      exact hbooks.1.sem_count
  · intro hs
    simp only [Books, hs] at hbooks
  · intro hs fuel
    simp only [Books, hs] at hbooks
    obtain ⟨kernel, hk, -⟩ := hbooks.1.acquire_free fuel timeoutInfinite
    exact ⟨kernel, hk⟩
  · intro hs
    simp only [Books, hs] at hbooks
    exact hbooks.2.2 trivial
  · intro err hs
    simp only [Books, hs, Owed, not_or, Bool.not_eq_true] at hbooks
    exact ⟨hbooks.1.sem_count, hbooks.2.1⟩

/-- In every run in which the handler ends before the thread goes on, the handshake is safe. -/
theorem floppy_irq_safe {s₀ : Handshake} (h0 : Start k t s₀)
    (hrun : Reaches (StepHandlerFirst k t) s₀ s) : Safe k t s :=
  (hrun.invariant h0.inv fun _ _ h hstep => h.step hstep).safe

/-- The driver before its first command -/
def start : Handshake where
  kernel := Sleep.awake
  armed := false
  needReset := false
  thread := .idle
  handling := false
  irq := false

theorem start_start : Start 0 0 start := ⟨⟨rfl, rfl, rfl, rfl, rfl⟩, rfl, rfl, rfl⟩

/-- The interrupt comes at the deadline, and the handler ends before the thread goes on. -/
theorem floppy_irq_safe_deadline : ∃ s, Reaches (StepHandlerFirst 0 0) start s ∧
    s.thread = .returned 0 ∧ Safe 0 0 s := by
  have hrun : ∃ s, Reaches (StepHandlerFirst 0 0) start s ∧ s.thread = .returned 0 :=
    ⟨_, .head (.inl ⟨.armExchange trivial, rfl⟩) <|
      .head (.inl ⟨@ThreadStep.armAcquire 0 0 _ 1 _ _ _ rfl rfl, rfl⟩) <|
      .head (.inl ⟨.armStore rfl, rfl⟩) <|
      .head (.inl ⟨@ThreadStep.waitAcquire 0 0 _ 1 3000 _ _ rfl rfl, rfl⟩) <|
      .head (.inr (.inr (@KernelStep.timeout 0 0 _ 1 _ (by decide) rfl))) <|
      .head (.inr (.inl (.exchange rfl))) <|
      .head (.inr (.inl (@HandlerStep.release 0 _ 1 _ rfl rfl))) <|
      .head (.inl ⟨.waitWoken rfl rfl, rfl⟩) <|
      .head (.inl ⟨.waitExchange rfl, rfl⟩) .refl, rfl⟩
  obtain ⟨s, hs, hreturned⟩ := hrun
  exact ⟨s, hs, hreturned, floppy_irq_safe start_start hs⟩

/--
The thread runs between the two steps of the handler: `FloppyIrqWait` returns 0 while the mutex is
held, and the next `FloppyIrqArm` blocks.
-/
theorem floppy_irq_arm_blocks : ∃ s s', Reaches (Step 0 0) start s ∧ s.thread = .returned 0 ∧
    (s.kernel.sem 0).count = 1 ∧ ¬ Safe 0 0 s ∧
    Reaches (Step 0 0) s s' ∧ s'.thread = .armBlocked := by
  have hrun : ∃ s s', Reaches (Step 0 0) start s ∧ s.thread = .returned 0 ∧
      (s.kernel.sem 0).count = 1 ∧ Reaches (Step 0 0) s s' ∧ s'.thread = .armBlocked :=
    ⟨_, _, .head (.inl (.armExchange trivial)) <|
      .head (.inl (@ThreadStep.armAcquire 0 0 _ 1 _ _ _ rfl rfl)) <|
      .head (.inl (.armStore rfl)) <|
      .head (.inl (@ThreadStep.waitAcquire 0 0 _ 1 3000 _ _ rfl rfl)) <|
      .head (.inr (.inr (@KernelStep.timeout 0 0 _ 1 _ (by decide) rfl))) <|
      .head (.inl (.waitWoken rfl rfl)) <|
      .head (.inr (.inl (.exchange rfl))) <|
      .head (.inl (.waitExchange rfl)) .refl, rfl, rfl,
      .head (.inl (.armExchange trivial)) <|
      .head (.inl (@ThreadStep.armBlock 0 0 _ 1 _ rfl rfl)) .refl, rfl⟩
  obtain ⟨s, s', hs, hreturned, hcount, hs', hblocked⟩ := hrun
  refine ⟨s, s', hs, hreturned, hcount, fun hsafe => ?_, hs', hblocked⟩
  have hfree := (hsafe.returned 0 hreturned).1
  rw [hcount] at hfree
  cases hfree

end Nolrem.Dev.FloppyIrq
