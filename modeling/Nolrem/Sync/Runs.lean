import Nolrem.Lib.Transition
import Nolrem.Sync.Block

/-!
# Runs of the semaphores

Threads take and give back units, sleep and return from their calls, the timer advances and
semaphores are abandoned, in any order. `Ghost` keeps the books: how many units were granted
and released, in which order threads were queued, and which call each thread is in.
-/

namespace Nolrem.Sync

open Nolrem.Lib

/-! ## The system -/

structure Ghost where
  /-- The units that count as taken at the start. -/
  initial : Nat → Int
  granted : Nat → Nat
  released : Nat → Nat
  clock : Nat
  /-- When a thread was last put on waiting lists. -/
  arrived : Nat → Nat
  /-- The array of the call of `AcquireSemFromMany` that a thread waits in. -/
  pending : Nat → Option (List Nat)
  /-- The semaphore whose release ended the last wait of a thread. -/
  handed : Nat → Option Nat

structure System where
  kernel : Kernel
  ghost : Ghost

inductive Event where
  | acquire (t : Nat) (sems : List Nat) (timeout : Int) (alloc : Option Nat)
  | finish (t : Nat)
  | release (k : Nat)
  | sleep (t : Nat) (relative : Bool) (ns : Nat)
  | advance (ns : Nat)
  | abandon (k : Nat)
deriving DecidableEq, Repr

def Ghost.afterAcquire (g : Ghost) (t : Nat) (sems : List Nat) : Outcome → Ghost
  | .returned _ none => g
  | .returned _ (some i) =>
    match sems[i]? with
    | none => g
    | some k => { g with granted := Function.update g.granted k (g.granted k + 1) }
  | .waits =>
    { g with
      clock := g.clock + 1
      arrived := Function.update g.arrived t g.clock
      pending := Function.update g.pending t (some sems)
      handed := Function.update g.handed t none }

/-- The thread that `ReleaseSem` gives the unit to. -/
def handedTo (s : Kernel) (k : Nat) : Option Nat :=
  if (s.sem k).count = (s.sem k).max then (s.sem k).waitingListStart.map (ownerOf s) else none

def Ghost.afterRelease (g : Ghost) (k : Nat) : Option Nat → Ghost
  | none => { g with released := Function.update g.released k (g.released k + 1) }
  | some t =>
    { g with
      released := Function.update g.released k (g.released k + 1)
      granted := Function.update g.granted k (g.granted k + 1)
      handed := Function.update g.handed t (some k) }

def step (fuel : Nat) (σ : System) : Event → Except Fault System
  | .acquire t sems timeout alloc => do
    let (s, out) ← acquireSemFromMany fuel σ.kernel t sems timeout alloc
    .ok { kernel := s, ghost := σ.ghost.afterAcquire t sems out }
  | .finish t =>
    .ok { σ with ghost.pending := Function.update σ.ghost.pending t none }
  | .release k => do
    let s ← releaseSem fuel σ.kernel k
    .ok { kernel := s, ghost := σ.ghost.afterRelease k (handedTo σ.kernel k) }
  | .sleep t relative ns => do
    let (s, _) ← addThreadToSleepQueue fuel σ.kernel t relative ns
    .ok { σ with kernel := s }
  | .advance ns => do
    let s ← advanceTimer fuel σ.kernel ns
    .ok { σ with kernel := s }
  | .abandon k => do
    let s ← abandonSem fuel σ.kernel k
    .ok { σ with kernel := s }

/--
A thread calls when it is not blocked and not inside another call. A unit is released by
someone who holds it. `alloc` is an address that is not in use.
-/
def Enabled (σ : System) : Event → Prop
  | .acquire t sems _ alloc => (σ.kernel.thr t).blocked = false ∧ σ.ghost.pending t = none ∧
    sems ≠ [] ∧ ∀ c, alloc = some c → σ.kernel.clot c = none
  | .finish t => (σ.kernel.thr t).blocked = false ∧ σ.ghost.pending t ≠ none
  | .release k => (σ.ghost.released k : Int) < σ.ghost.initial k + σ.ghost.granted k
  | .sleep t _ _ => (σ.kernel.thr t).blocked = false ∧ σ.ghost.pending t = none
  | .advance _ => True
  | .abandon _ => True

/-- Arrays hold distinct semaphores. -/
def Distinct (_ : System) : Event → Prop
  | .acquire _ sems _ _ => sems.Nodup
  | _ => True

/-- No call that has to wait has an array in which a semaphore is repeated. -/
def NoRepeatWait (σ : System) : Event → Prop
  | .acquire _ sems timeout alloc => JoinsLists σ.kernel sems timeout alloc → sems.Nodup
  | _ => True

abbrev AnyEvent (_ : System) (_ : Event) : Prop := True

/-- A step with an event that `ok` allows. -/
def Step (ok : System → Event → Prop) (σ σ' : System) : Prop :=
  ∃ e fuel, Enabled σ e ∧ ok σ e ∧ step fuel σ e = .ok σ'

/-- Nobody waits, and every semaphore has its initial count. -/
structure Started (σ : System) : Prop where
  schedInit : σ.kernel.schedInit = true
  thr : ∀ t, (σ.kernel.thr t).blocked = false ∧ (σ.kernel.thr t).waitingSemOrClot = none ∧
    (σ.kernel.thr t).wakeupTimeNs = 0
  lists : ∀ k, (σ.kernel.sem k).waitingListStart = none ∧ (σ.kernel.sem k).waitingListEnd = none
  counts : ∀ k, (σ.kernel.sem k).count = σ.ghost.initial k ∧ 0 ≤ σ.ghost.initial k ∧
    σ.ghost.initial k ≤ (σ.kernel.sem k).max
  clot : ∀ c, σ.kernel.clot c = none
  timer : σ.kernel.firstWaitingTimer = none
  ghost : ∀ k, σ.ghost.granted k = 0 ∧ σ.ghost.released k = 0
  pending : ∀ t, σ.ghost.pending t = none

/-! ## The invariant -/

/-- The wait of a thread is over for a reason that its return value names. -/
def Ended (s : Kernel) (g : Ghost) (t : Nat) (sems : List Nat) : Prop :=
  0 < (s.thr t).blockReturnVal ∨ ∃ k i : Nat, g.handed t = some k ∧
    (s.thr t).blockReturnVal = -(i : Int) ∧ sems[i]? = some k

structure GoodAt (σ : System) (q : Nat → List WaitObj) (tl : List Nat) (n : Nat) : Prop where
  inv : InvAt σ.kernel q tl n
  count : ∀ k, 0 ≤ (σ.kernel.sem k).count ∧ (σ.kernel.sem k).count ≤ (σ.kernel.sem k).max
  full : ∀ k, q k ≠ [] → (σ.kernel.sem k).count = (σ.kernel.sem k).max
  ledger : ∀ k, (σ.ghost.granted k : Int) - σ.ghost.released k =
    (σ.kernel.sem k).count - σ.ghost.initial k
  fifo : ∀ k, (q k).Pairwise fun v w =>
    σ.ghost.arrived (ownerOf σ.kernel v) < σ.ghost.arrived (ownerOf σ.kernel w)
  past : ∀ k, ∀ w ∈ q k, σ.ghost.arrived (ownerOf σ.kernel w) < σ.ghost.clock
  waiting : ∀ t, waitsOn σ.kernel t ≠ [] → σ.ghost.pending t = some (waitsOn σ.kernel t)
  pending : ∀ t sems, σ.ghost.pending t = some sems → (σ.kernel.thr t).blocked = true →
    waitsOn σ.kernel t = sems
  ended : ∀ t sems, σ.ghost.pending t = some sems → (σ.kernel.thr t).blocked = false →
    Ended σ.kernel σ.ghost t sems

def Good (σ : System) : Prop := ∃ q tl n, GoodAt σ q tl n

theorem started_good {σ : System} (h : Started σ) : Good σ := by
  have hwait : ∀ t, waitsOn σ.kernel t = [] := by
    intro t
    unfold waitsOn
    rw [(h.thr t).2.1]
  refine ⟨fun _ => [], [], 0, ⟨⟨⟨fun k => ?_, fun k => ?_, by simp, by simp, by simp⟩, ?_, ?_, ?_,
    ?_⟩, ⟨h.timer, fun t => ?_⟩, fun t ht => ?_, h.schedInit, by simp, by simp⟩, fun k => ?_,
    by simp, fun k => ?_, by simp, by simp, fun t ht => ?_, fun t sems ht => ?_,
    fun t sems ht => ?_⟩
  · exact (h.lists k).1
  · exact (h.lists k).2
  · simp [(h.thr _).2.1]
  · simp [h.clot]
  · simp [h.clot]
  · simp [(h.thr _).2.1]
  · simp [(h.thr t).2.2]
  · simp [(h.thr t).2.1, (h.thr t).2.2] at ht
  · obtain ⟨h1, h2, h3⟩ := h.counts k
    omega
  · obtain ⟨h1, -, -⟩ := h.counts k
    obtain ⟨h2, h3⟩ := h.ghost k
    omega
  · exact absurd (hwait t) ht
  · rw [h.pending] at ht
    simp at ht
  · rw [h.pending] at ht
    simp at ht

/-- A unit is taken or given back without a waiter. -/
theorem GoodAt.counted {σ : System} {q : Nat → List WaitObj} {tl : List Nat} {n k : Nat} {d : Int}
    (h : GoodAt σ q tl n) (granted released : Nat → Nat) (hempty : q k = [])
    (hcount : 0 ≤ (σ.kernel.sem k).count + d ∧
      (σ.kernel.sem k).count + d ≤ (σ.kernel.sem k).max)
    (hk : (granted k : Int) - released k = σ.ghost.granted k - σ.ghost.released k + d)
    (hne : ∀ j, j ≠ k → granted j = σ.ghost.granted j ∧ released j = σ.ghost.released j) :
    GoodAt { kernel := σ.kernel.setSem k fun sem => { sem with count := sem.count + d }
             ghost := { σ.ghost with granted, released } } q tl n := by
  have hsem : ∀ j, j ≠ k → ((σ.kernel.setSem k fun sem =>
      { sem with count := sem.count + d }).sem j) = σ.kernel.sem j := fun j hj => setSem_sem_ne hj
  refine ⟨h.inv.counted, fun j => ?_, fun j hj => ?_, fun j => ?_, ?_, ?_, ?_, ?_, ?_⟩
  · by_cases hjk : j = k
    · subst hjk
      simpa using hcount
    · simp only [hsem j hjk]
      exact h.count j
  · by_cases hjk : j = k
    · subst hjk
      exact absurd hempty hj
    · simp only [hsem j hjk]
      exact h.full j hj
  · have hl := h.ledger j
    by_cases hjk : j = k
    · subst hjk
      simp only [setSem_sem_self]
      omega
    · simp only [hsem j hjk, (hne j hjk).1, (hne j hjk).2]
      exact hl
  · intro j
    refine (h.fifo j).imp ?_
    intro v w hvw
    cases v <;> cases w <;> exact hvw
  · intro j w hw
    have := h.past j w hw
    cases w <;> exact this
  · exact h.waiting
  · exact h.pending
  · exact h.ended

/-- Some threads are woken. -/
theorem GoodAt.woke {σ : System} {q q' : Nat → List WaitObj} {tl tl' : List Nat} {n n' : Nat}
    {R : Nat → Int → Prop} {s' : Kernel} {g : Ghost} (h : GoodAt σ q tl n)
    (hinv : InvAt s' q' tl' n') (hw : Woke R σ.kernel q s' q')
    (hsame : g.initial = σ.ghost.initial ∧ g.clock = σ.ghost.clock ∧
      g.arrived = σ.ghost.arrived ∧ g.pending = σ.ghost.pending)
    (hledger : ∀ k, (g.granted k : Int) - g.released k =
      σ.ghost.granted k - σ.ghost.released k)
    (hhanded : ∀ t, (σ.kernel.thr t).blocked = false → g.handed t = σ.ghost.handed t)
    (hended : ∀ t sems, σ.ghost.pending t = some sems → (σ.kernel.thr t).blocked = true →
      R t (s'.thr t).blockReturnVal → Ended s' g t sems) :
    GoodAt { kernel := s', ghost := g } q' tl' n' := by
  obtain ⟨hinit, hclock, harr, hpend⟩ := hsame
  have hsub : ∀ k, ∀ w ∈ q' k, w ∈ q k := by
    intro k w hwq
    rw [hw.queue] at hwq
    exact List.mem_of_mem_filter hwq
  refine ⟨hinv, fun k => ?_, fun k hk => ?_, fun k => ?_, fun k => ?_, fun k w hwq => ?_,
    fun t ht => ?_, fun t sems ht hb => ?_, fun t sems ht hb => ?_⟩
  · simp only [hw.sem k]
    exact h.count k
  · simp only [hw.sem k]
    refine h.full k fun hnil => hk ?_
    rw [hw.queue, hnil]
    rfl
  · simp only [hw.sem k, hinit, hledger]
    exact h.ledger k
  · have hp : (q' k).Pairwise fun v w => σ.ghost.arrived (ownerOf σ.kernel v) <
        σ.ghost.arrived (ownerOf σ.kernel w) := by
      rw [hw.queue]
      exact (h.fifo k).filter _
    simp only [harr]
    refine hp.imp_of_mem ?_
    intro v w hv hwq hvw
    rw [hw.owner k v hv, hw.owner k w hwq]
    exact hvw
  · simp only [harr, hclock]
    rw [hw.owner k w hwq]
    exact h.past k w (hsub k w hwq)
  · simp only at ht ⊢
    have hb : (s'.thr t).blocked = true := by
      refine hinv.asleep t (Or.inl fun hnone => ht ?_)
      unfold waitsOn
      rw [hnone]
    have hsame := (hw.asleep t hb).2.2.2.2
    rw [hsame] at ht ⊢
    rw [hpend]
    exact h.waiting t ht
  · simp only [hpend] at ht
    obtain ⟨h1, -, -, -, h5⟩ := hw.asleep t hb
    rw [h5]
    exact h.pending t sems ht h1
  · simp only [hpend] at ht
    cases hb0 : (σ.kernel.thr t).blocked with
    | true => exact hended t sems ht hb0 (hw.woken t hb0 hb)
    | false =>
      have hold := h.ended t sems ht hb0
      unfold Ended at hold ⊢
      simp only [(hw.awake t hb0).2, hhanded t hb0]
      exact hold

/-- A step by `t` that wakes nobody. -/
theorem GoodAt.onlyThread {σ : System} {q q' : Nat → List WaitObj} {tl tl' : List Nat}
    {n n' t : Nat} {s' : Kernel} {g : Ghost} (h : GoodAt σ q tl n) (hinv : InvAt s' q' tl' n')
    (ho : OnlyThread σ.kernel s' t)
    (hsame : g.initial = σ.ghost.initial ∧ g.granted = σ.ghost.granted ∧
      g.released = σ.ghost.released)
    (hghost : ∀ u, u ≠ t → g.pending u = σ.ghost.pending u ∧ g.handed u = σ.ghost.handed u)
    (hfull : ∀ k, q' k ≠ [] → (σ.kernel.sem k).count = (σ.kernel.sem k).max)
    (hfifo : ∀ k, (q' k).Pairwise fun v w => g.arrived (ownerOf s' v) < g.arrived (ownerOf s' w))
    (hpast : ∀ k, ∀ w ∈ q' k, g.arrived (ownerOf s' w) < g.clock)
    (hwaiting : waitsOn s' t ≠ [] → g.pending t = some (waitsOn s' t))
    (hpending : ∀ sems, g.pending t = some sems → (s'.thr t).blocked = true ∧
      waitsOn s' t = sems) : GoodAt { kernel := s', ghost := g } q' tl' n' := by
  obtain ⟨hinit, hgranted, hreleased⟩ := hsame
  refine ⟨hinv, fun k => ?_, fun k hk => ?_, fun k => ?_, hfifo, hpast, fun u hu => ?_,
    fun u sems hu hb => ?_, fun u sems hu hb => ?_⟩
  · simp only [ho.sem k]
    exact h.count k
  · simp only [ho.sem k]
    exact hfull k hk
  · simp only [ho.sem k, hinit, hgranted, hreleased]
    exact h.ledger k
  · by_cases hut : u = t
    · subst hut
      exact hwaiting hu
    · simp only [ho.waitsOn u hut] at hu ⊢
      rw [(hghost u hut).1]
      exact h.waiting u hu
  · by_cases hut : u = t
    · subst hut
      exact (hpending sems hu).2
    · simp only [(hghost u hut).1] at hu
      simp only [(ho.thr u hut).1] at hb
      simp only [ho.waitsOn u hut]
      exact h.pending u sems hu hb
  · by_cases hut : u = t
    · subst hut
      have := (hpending sems hu).1
      simp only [this] at hb
      simp at hb
    · simp only [(hghost u hut).1] at hu
      simp only [(ho.thr u hut).1] at hb
      have := h.ended u sems hu hb
      unfold Ended at this ⊢
      simp only [(ho.thr u hut).2, (hghost u hut).2]
      exact this

/-! ## One step -/

/-- The waiters that stay keep their order, and at most one joins at the end. -/
def InOrder (σ : System) (q : Nat → List WaitObj) (σ' : System) (q' : Nat → List WaitObj) : Prop :=
  ∀ k, ∃ new, q' k =
    ((q k).filter fun w => (σ'.kernel.thr (ownerOf σ.kernel w)).blocked) ++ new ∧ new.length ≤ 1

/-- What each step leaves. -/
def StepKeeps (σ : System) (q : Nat → List WaitObj) (σ' : System) : Prop :=
  ∃ q' tl' n', GoodAt σ' q' tl' n' ∧ InOrder σ q σ' q'

/-- If every waiter is still blocked, every list is kept. -/
theorem inOrder_of_blocked {σ σ' : System} {q : Nat → List WaitObj}
    (h : ∀ k, ∀ w ∈ q k, (σ'.kernel.thr (ownerOf σ.kernel w)).blocked = true) :
    InOrder σ q σ' q := by
  intro k
  refine ⟨[], ?_, by simp⟩
  rw [List.append_nil, eq_comm, List.filter_eq_self]
  exact h k

theorem GoodAt.owner_ne {σ : System} {q : Nat → List WaitObj} {tl : List Nat} {n t k : Nat}
    {w : WaitObj} (h : GoodAt σ q tl n) (ht : (σ.kernel.thr t).blocked = false) (hw : w ∈ q k) :
    ownerOf σ.kernel w ≠ t := by
  rintro rfl
  have := h.inv.owner_blocked hw
  rw [ht] at this
  simp at this

theorem acquire_keeps {σ : System} {q : Nat → List WaitObj} {tl : List Nat} {n t : Nat}
    {sems : List Nat} {timeout : Int} {alloc : Option Nat} (h : GoodAt σ q tl n)
    (he : Enabled σ (.acquire t sems timeout alloc))
    (hno : NoRepeatWait σ (.acquire t sems timeout alloc)) (fuel : Nat) :
    Ends (step fuel σ (.acquire t sems timeout alloc)) (StepKeeps σ q)
      (fun e => e = .outOfFuel ∧ fuel ≤ n) := by
  obtain ⟨ht, hpend, hsems, hfresh⟩ := he
  unfold step
  refine (acquireSemFromMany_spec h.inv ht hsems hno hfresh fuel).bind ?_
  rintro ⟨s', out⟩ (⟨i, k, rfl, hi, hlt, rfl⟩ | ⟨hfull, hcase⟩)
  · -- a unit is free, so nobody waits for one
    have hempty : q k = [] := by
      by_contra hne
      have := h.full k hne
      omega
    have hc := h.count k
    have hg := h.counted (d := 1) (k := k)
      (Function.update σ.ghost.granted k (σ.ghost.granted k + 1)) σ.ghost.released hempty (by omega) (by simp; omega)
      (fun j hj => by simp [hj])
    show StepKeeps σ q _
    simp only [Ghost.afterAcquire, hi]
    exact ⟨q, tl, n, hg, inOrder_of_blocked fun _ _ hw => h.inv.owner_blocked hw⟩
  · show StepKeeps σ q _
    have hkeep : ∀ s' : Kernel, OnlyThread σ.kernel s' t → ∀ k, ∀ w ∈ q k,
        (s'.thr (ownerOf σ.kernel w)).blocked = true := by
      intro s' ho k w hw
      rw [(ho.thr _ (h.owner_ne ht hw)).1]
      exact h.inv.owner_blocked hw
    cases hcase with
    | again heq =>
      subst heq
      exact ⟨q, tl, n, h, inOrder_of_blocked fun _ _ hw => h.inv.owner_blocked hw⟩
    | noMem tl' hinv ho hnone hown =>
      refine ⟨q, tl', n + 1, h.onlyThread hinv ho ⟨rfl, rfl, rfl⟩ (fun _ _ => ⟨rfl, rfl⟩) h.full
        (fun k => (h.fifo k).imp_of_mem fun hv hw hvw => ?_) (fun k w hw => ?_)
        (fun hne => absurd hnone hne) (fun sems' hs => ?_), inOrder_of_blocked (hkeep s' ho)⟩
      · rw [hown k _ hv, hown k _ hw]
        exact hvw
      · rw [hown k w hw]
        exact h.past k w hw
      · simp [Ghost.afterAcquire, hpend] at hs
    | waits w tl' hinv ho hblocked hon howner hown =>
      have harr : ∀ k, ∀ v ∈ q k,
          Function.update σ.ghost.arrived t σ.ghost.clock (ownerOf s' v) =
          σ.ghost.arrived (ownerOf σ.kernel v) := by
        intro k v hv
        rw [hown k v hv, Function.update_of_ne (h.owner_ne ht hv)]
      have hlast : Function.update σ.ghost.arrived t σ.ghost.clock (ownerOf s' w) =
          σ.ghost.clock := by
        rw [howner, Function.update_self]
      refine ⟨_, tl', n + 1, h.onlyThread (g := σ.ghost.afterAcquire t sems .waits) hinv ho
        ⟨rfl, rfl, rfl⟩ (fun u hu => ?_) (fun k hk => ?_) (fun k => ?_) (fun k v hv => ?_)
        (fun _ => ?_) (fun sems' hs => ?_), fun k => ?_⟩
      · simp [Ghost.afterAcquire, hu]
      · by_cases hks : k ∈ sems
        · have h1 := hfull k hks
          have h2 := h.count k
          omega
        · simp only [hks, if_false] at hk
          exact h.full k hk
      · have hold : (q k).Pairwise fun v v' =>
            Function.update σ.ghost.arrived t σ.ghost.clock (ownerOf s' v) <
            Function.update σ.ghost.arrived t σ.ghost.clock (ownerOf s' v') := by
          refine (h.fifo k).imp_of_mem fun hv hw hvw => ?_
          rw [harr k _ hv, harr k _ hw]
          exact hvw
        by_cases hks : k ∈ sems
        · simp only [hks, if_true, Ghost.afterAcquire]
          refine List.pairwise_append.mpr ⟨hold, List.pairwise_singleton _ _, fun v hv v' hv' => ?_⟩
          rw [List.mem_singleton.mp hv', harr k v hv, hlast]
          exact h.past k v hv
        · simp only [hks, if_false]
          exact hold
      · have hq : v ∈ q k ∨ v = w := by
          by_cases hks : k ∈ sems
          · simpa [hks] using hv
          · exact Or.inl (by simpa [hks] using hv)
        simp only [Ghost.afterAcquire]
        rcases hq with hq | rfl
        · rw [harr k v hq]
          exact Nat.lt_succ_of_lt (h.past k v hq)
        · rw [hlast]
          exact Nat.lt_succ_self _
      · simp [Ghost.afterAcquire, hon]
      · simp only [Ghost.afterAcquire, Function.update_self, Option.some.injEq] at hs
        exact ⟨hblocked, hon.trans hs⟩
      · have hfilter : (q k).filter (fun v => (s'.thr (ownerOf σ.kernel v)).blocked) = q k := by
          rw [List.filter_eq_self]
          exact hkeep s' ho k
        refine ⟨if k ∈ sems then [w] else [], ?_, by split <;> simp⟩
        show (if k ∈ sems then q k ++ [w] else q k) = (q k).filter _ ++ _
        rw [hfilter]
        split <;> simp

theorem release_keeps {σ : System} {q : Nat → List WaitObj} {tl : List Nat} {n k : Nat}
    (h : GoodAt σ q tl n) (he : Enabled σ (.release k)) (fuel : Nat) :
    Ends (step fuel σ (.release k)) (StepKeeps σ q) (fun e => e = .outOfFuel ∧ fuel ≤ n) := by
  have hlt : (σ.ghost.released k : Int) < σ.ghost.initial k + σ.ghost.granted k := he
  have hchain := h.inv.waits.queues.chain k
  unfold step
  refine (releaseSem_spec h.inv k fuel).bind ?_
  rintro s' hcase
  show StepKeeps σ q _
  cases hcase with
  | handed w l hq hfull hinv hw hwoken hothers =>
    have hto : handedTo σ.kernel k = some (ownerOf σ.kernel w) := by
      rw [hq] at hchain
      unfold handedTo
      rw [if_pos hfull, hchain.1]
      rfl
    have hmem : w ∈ q k := by simp [hq]
    rw [hto]
    refine ⟨_, _, n, h.woke (g := σ.ghost.afterRelease k (some (ownerOf σ.kernel w))) hinv hw
      ⟨rfl, rfl, rfl, rfl⟩ (fun j => ?_) (fun t ht => ?_) (fun t sems hp hb hR => ?_),
      fun j => ⟨[], ?_, by simp⟩⟩
    · by_cases hj : j = k
      · subst hj
        simp only [Ghost.afterRelease, Function.update_self]
        omega
      · simp [Ghost.afterRelease, hj]
    · have hne : t ≠ ownerOf σ.kernel w := fun hne => h.owner_ne ht hmem hne.symm
      simp [Ghost.afterRelease, hne]
    · obtain ⟨rfl, i, hr, hi⟩ := hR
      refine Or.inr ⟨k, i, by simp [Ghost.afterRelease], hr, ?_⟩
      rw [← h.pending _ sems hp hb]
      exact hi
    · rw [List.append_nil]
      exact hw.queue j
  | counted hcase heq =>
    subst heq
    have hc := h.count k
    have hl := h.ledger k
    have hempty : q k = [] := by
      by_contra hne
      exact hcase.elim hne fun hne' => hne' (h.full k hne)
    have hto : handedTo σ.kernel k = none := by
      rw [hempty] at hchain
      unfold handedTo
      split
      · rw [chain_nil.mp hchain]
        rfl
      · rfl
    rw [hto]
    have hg := h.counted (d := -1) (k := k) σ.ghost.granted
      (Function.update σ.ghost.released k (σ.ghost.released k + 1)) hempty
      (by omega) (by simp; omega) (fun j hj => by simp [hj])
    exact ⟨q, tl, n, hg, inOrder_of_blocked fun _ _ hw => h.inv.owner_blocked hw⟩

/-- What each step keeps, and that it returns when the fuel is enough for the lists. -/
theorem step_keeps {σ : System} {q : Nat → List WaitObj} {tl : List Nat} {n : Nat} {e : Event}
    (h : GoodAt σ q tl n) (he : Enabled σ e) (hno : NoRepeatWait σ e) (fuel : Nat) :
    Ends (step fuel σ e) (StepKeeps σ q) (fun e => e = .outOfFuel ∧ fuel ≤ n) := by
  cases e with
  | acquire t sems timeout alloc => exact acquire_keeps h he hno fuel
  | release k => exact release_keeps h he fuel
  | finish t =>
    obtain ⟨ht, -⟩ := he
    have hnone : waitsOn σ.kernel t = [] := by
      unfold waitsOn
      rw [h.inv.not_waiting ht]
    refine ⟨q, tl, n, h.onlyThread (t := t) h.inv (OnlyThread.refl _ t) ⟨rfl, rfl, rfl⟩
      (fun u hu => by simp [hu]) h.full h.fifo h.past (fun hne => absurd hnone hne) (by simp),
      inOrder_of_blocked fun _ _ hw => h.inv.owner_blocked hw⟩
  | sleep t relative ns =>
    obtain ⟨ht, hpend⟩ := he
    have hnone : waitsOn σ.kernel t = [] := by
      unfold waitsOn
      rw [h.inv.not_waiting ht]
    unfold step
    refine (addThreadToSleepQueue_spec h.inv ht relative ns fuel).bind ?_
    rintro ⟨s', added⟩ (⟨-, rfl⟩ | ⟨-, hslept, hb, -, tl', hinv⟩)
    · exact ⟨q, tl, n, h, inOrder_of_blocked fun _ _ hw => h.inv.owner_blocked hw⟩
    · have hclot : s'.clot = σ.kernel.clot := hslept.clot
      have hown : ownerOf s' = ownerOf σ.kernel := by
        funext w
        cases w with
        | thread u => rfl
        | clot c => simp only [ownerOf, hclot]
      have hnone' : waitsOn s' t = [] := by
        rw [waitsOn_congr hslept.wait hclot, hnone]
      refine ⟨q, tl', n + 1, h.onlyThread hinv hslept.only ⟨rfl, rfl, rfl⟩
        (fun _ _ => ⟨rfl, rfl⟩) h.full ?_ ?_ (fun hne => absurd hnone' hne)
        (fun sems hs => by rw [hpend] at hs; simp at hs), inOrder_of_blocked fun k w hw => ?_⟩
      · simp only [hown]
        exact h.fifo
      · simp only [hown]
        exact h.past
      · show (s'.thr _).blocked = true
        have hthr := hslept.only.thr _ (h.owner_ne ht hw)
        simp only at hthr
        rw [hthr.1]
        exact h.inv.owner_blocked hw
  | advance ns =>
    unfold step
    refine (advanceTimer_spec h.inv ns fuel).bind ?_
    rintro s' ⟨q', tl', hinv, hw⟩
    refine ⟨q', tl', n, h.woke hinv hw ⟨rfl, rfl, rfl, rfl⟩ (fun _ => rfl) (fun _ _ => rfl)
      (fun t sems _ _ hR => Or.inl (by rw [hR]; decide)), fun j => ⟨[], ?_, by simp⟩⟩
    rw [List.append_nil]
    exact hw.queue j
  | abandon k =>
    unfold step
    refine (abandonSem_spec h.inv k fuel).bind ?_
    rintro s' ⟨q', tl', hinv, hw, -⟩
    refine ⟨q', tl', n, h.woke hinv hw ⟨rfl, rfl, rfl, rfl⟩ (fun _ => rfl) (fun _ _ => rfl)
      (fun t sems _ _ hR => Or.inl (by rw [hR]; decide)), fun j => ⟨[], ?_, by simp⟩⟩
    rw [List.append_nil]
    exact hw.queue j

theorem reaches_good {σ₀ σ : System} (h0 : Started σ₀) (hr : Reaches (Step NoRepeatWait) σ₀ σ) :
    Good σ := by
  refine hr.invariant (started_good h0) ?_
  rintro a b ⟨q, tl, n, ha⟩ ⟨e, fuel, he, hno, hstep⟩
  obtain ⟨q', tl', n', hb, -⟩ := (step_keeps ha he hno fuel).of_ok hstep
  exact ⟨q', tl', n', hb⟩

/-- Each step of such a run returns: no loop over a list goes on for ever. -/
theorem step_returns {σ₀ σ : System} (h0 : Started σ₀) (hr : Reaches (Step NoRepeatWait) σ₀ σ)
    {e : Event} (he : Enabled σ e) (hno : NoRepeatWait σ e) : ∃ fuel σ', step fuel σ e = .ok σ' := by
  obtain ⟨q, tl, n, h⟩ := reaches_good h0 hr
  obtain ⟨σ', hσ', -⟩ := (step_keeps h he hno (n + 1)).exists_ok fun e he => by omega
  exact ⟨_, σ', hσ'⟩

end Nolrem.Sync
