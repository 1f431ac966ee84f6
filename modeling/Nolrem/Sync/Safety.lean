import Nolrem.Sync.Runs

/-!
# What holds of semaphores in every run

Two laws read off the invariant of `Runs`: how units are counted and who gets them, and how
the waiting lists agree with the threads that wait.
-/

namespace Nolrem.Sync

open Nolrem.Lib

/-! ## Units -/

/-- What holds of the semaphore `k` between two steps. -/
structure SemSafe (σ : System) (k : Nat) : Prop where
  bounds : 0 ≤ (σ.kernel.sem k).count ∧ (σ.kernel.sem k).count ≤ (σ.kernel.sem k).max
  full : ∀ t, k ∈ waitsOn σ.kernel t → (σ.kernel.sem k).count = (σ.kernel.sem k).max
  ledger : (σ.ghost.granted k : Int) - σ.ghost.released k =
    (σ.kernel.sem k).count - σ.ghost.initial k
  /-- No wakeup is lost: while a unit is free the list is empty. -/
  free : (σ.kernel.sem k).count < (σ.kernel.sem k).max →
    (σ.kernel.sem k).waitingListStart = none

/-- `t` waits on `k`, and whoever else does came later. -/
def LongestWaiting (σ : System) (k t : Nat) : Prop :=
  k ∈ waitsOn σ.kernel t ∧ ∀ u, u ≠ t → k ∈ waitsOn σ.kernel u →
    σ.ghost.arrived t < σ.ghost.arrived u

/-- A unit of `k` goes from the caller of `ReleaseSem` to `t`. -/
structure HandedOver (σ σ' : System) (k t : Nat) : Prop where
  longest : LongestWaiting σ k t
  woken : (σ'.kernel.thr t).blocked = false
  others : ∀ u, u ≠ t → (σ'.kernel.thr u).blocked = (σ.kernel.thr u).blocked
  result : ∃ i, acquireResult σ'.kernel t = .returned 0 (some i) ∧
    (waitsOn σ.kernel t)[i]? = some k
  count : (σ'.kernel.sem k).count = (σ.kernel.sem k).count
  books : σ'.ghost.granted k = σ.ghost.granted k + 1 ∧
    σ'.ghost.released k = σ.ghost.released k + 1

/-- A unit of `k` becomes free. -/
structure FreedUnit (σ σ' : System) (k : Nat) : Prop where
  nobody : ∀ t, k ∉ waitsOn σ.kernel t
  thr : σ'.kernel.thr = σ.kernel.thr
  count : (σ'.kernel.sem k).count = (σ.kernel.sem k).count - 1
  books : σ'.ghost.granted k = σ.ghost.granted k ∧
    σ'.ghost.released k = σ.ghost.released k + 1

section GoodAt

variable {σ : System} {q : Nat → List WaitObj} {tl : List Nat} {n : Nat}

theorem GoodAt.waits_iff (h : GoodAt σ q tl n) {k t : Nat} :
    k ∈ waitsOn σ.kernel t ↔ ∃ w ∈ q k, ownerOf σ.kernel w = t := by
  refine ⟨h.inv.waits.exists_mem, ?_⟩
  rintro ⟨w, hw, rfl⟩
  exact (h.inv.waits.mem_waitsOn hw).1

theorem GoodAt.semSafe (h : GoodAt σ q tl n) (k : Nat) : SemSafe σ k := by
  refine ⟨h.count k, fun t ht => ?_, h.ledger k, fun hlt => ?_⟩
  · obtain ⟨w, hw, -⟩ := h.waits_iff.mp ht
    exact h.full k (List.ne_nil_of_mem hw)
  · rw [(h.inv.waits.queues.chain k).start_eq_none_iff]
    by_contra hne
    have := h.full k hne
    omega

/-- The first thread on a list has been there longest. -/
theorem GoodAt.longest (h : GoodAt σ q tl n) {k : Nat} {w : WaitObj} {l : List WaitObj}
    (hq : q k = w :: l) : LongestWaiting σ k (ownerOf σ.kernel w) := by
  refine ⟨h.waits_iff.mpr ⟨w, by simp [hq], rfl⟩, fun u hu hk => ?_⟩
  obtain ⟨v, hv, rfl⟩ := h.waits_iff.mp hk
  have hfifo := h.fifo k
  rw [hq] at hfifo hv
  rcases List.mem_cons.mp hv with rfl | hv
  · exact absurd rfl hu
  · exact (List.pairwise_cons.mp hfifo).1 v hv

/-- The first waiter gets a released unit; if nobody waits, it becomes free. -/
theorem GoodAt.released (h : GoodAt σ q tl n) (k fuel : Nat) {σ' : System}
    (hstep : step fuel σ (.release k) = .ok σ') :
    (∃ t, HandedOver σ σ' k t) ∨ FreedUnit σ σ' k := by
  have hends : Ends (step fuel σ (.release k))
      (fun σ' => (∃ t, HandedOver σ σ' k t) ∨ FreedUnit σ σ' k) (fun _ => True) := by
    unfold step
    refine ((releaseSem_spec h.inv k fuel).mono (fun _ h => h) fun _ _ => trivial).bind ?_
    rintro s' hcase
    show (∃ t, HandedOver σ _ k t) ∨ FreedUnit σ _ k
    have hchain := h.inv.waits.queues.chain k
    cases hcase with
    | handed w l hq hfull hinv hw hwoken hothers =>
      have hto : handedTo σ.kernel k = some (ownerOf σ.kernel w) := by
        rw [hq] at hchain
        unfold handedTo
        rw [if_pos hfull, hchain.1]
        rfl
      have hblocked := h.inv.owner_blocked (k := k) (w := w) (by simp [hq])
      obtain ⟨-, i, hr, hi⟩ := hw.woken _ hblocked hwoken
      rw [hto]
      refine Or.inl ⟨ownerOf σ.kernel w, h.longest hq, hwoken, hothers, ⟨i, ?_, hi⟩,
        (hw.sem k).1, by simp [Ghost.afterRelease]⟩
      unfold acquireResult
      rw [hr, if_neg (by omega)]
      simp
    | counted hcase heq =>
      subst heq
      have hempty : q k = [] := by
        by_contra hne
        exact hcase.elim hne fun hne' => hne' (h.full k hne)
      have hto : handedTo σ.kernel k = none := by
        rw [hempty] at hchain
        unfold handedTo
        rw [chain_nil.mp hchain]
        simp
      rw [hto]
      refine Or.inr ⟨fun t ht => ?_, rfl, by simp, by simp [Ghost.afterRelease]⟩
      obtain ⟨w, hw, -⟩ := h.waits_iff.mp ht
      simp [hempty] at hw
  exact hends.of_ok hstep

end GoodAt

theorem Distinct.noRepeatWait {σ : System} {e : Event} (h : Distinct σ e) : NoRepeatWait σ e := by
  cases e with
  | acquire t sems timeout alloc => exact fun _ => h
  | _ => trivial

theorem reaches_noRepeatWait {σ₀ σ : System} (h : Reaches (Step Distinct) σ₀ σ) :
    Reaches (Step NoRepeatWait) σ₀ σ := by
  refine Relation.ReflTransGen.mono ?_ _ _ h
  rintro a b ⟨e, fuel, he, hd, hstep⟩
  exact ⟨e, fuel, he, hd.noRepeatWait, hstep⟩

/--
**Semaphore safety.** Whatever the order of the steps, the count stays within its bounds and
agrees with the books, a semaphore that is waited on is full, every step returns, and a
released unit goes to the waiter that has been on the list longest.
-/
theorem semaphore_safety {σ₀ σ : System} (h0 : Started σ₀) (hr : Reaches (Step Distinct) σ₀ σ) :
    (∀ k, SemSafe σ k) ∧
      (∀ e, Enabled σ e → Distinct σ e → ∃ fuel σ', step fuel σ e = .ok σ') ∧
      ∀ k, Enabled σ (.release k) → ∀ fuel σ', step fuel σ (.release k) = .ok σ' →
        (∃ t, HandedOver σ σ' k t) ∨ FreedUnit σ σ' k := by
  have hr' := reaches_noRepeatWait hr
  obtain ⟨q, tl, n, h⟩ := reaches_good h0 hr'
  exact ⟨h.semSafe, fun e he hd => step_returns h0 hr' he hd.noRepeatWait,
    fun k _ fuel σ' hstep => h.released k fuel hstep⟩

/-- Every semaphore is a mutex that nobody has taken. -/
def freeMutexes : System where
  kernel :=
    { thr := fun _ =>
        { blocked := false, nextWaitingSem := none, nextWaitingTimer := none
          waitingSemOrClot := none, wakeupTimeNs := 0, blockReturnVal := 0 }
      sem := fun _ => { count := 0, max := 1, waitingListStart := none, waitingListEnd := none }
      clot := fun _ => none
      schedInit := true
      nsSinceBoot := 0
      nextWakeupNs := 0
      firstWaitingTimer := none }
  ghost :=
    { initial := fun _ => 0
      granted := fun _ => 0
      released := fun _ => 0
      clock := 0
      arrived := fun _ => 0
      pending := fun _ => none
      handed := fun _ => none }

theorem freeMutexes_started : Started freeMutexes :=
  ⟨rfl, fun _ => ⟨rfl, rfl, rfl⟩, fun _ => ⟨rfl, rfl⟩,
    fun _ => ⟨rfl, Int.le_refl 0, by simp [freeMutexes]⟩, fun _ => rfl, rfl,
    fun _ => ⟨rfl, rfl⟩, fun _ => rfl⟩

/-- Thread 0 takes two mutexes, thread 1 waits for both and gets the second. -/
theorem semaphore_safety_handed : ∃ σ σ', Reaches (Step Distinct) freeMutexes σ ∧
    step 1 σ (.release 1) = .ok σ' ∧ SemSafe σ 1 ∧ waitsOn σ.kernel 1 = [0, 1] ∧
    ((∃ t, HandedOver σ σ' 1 t) ∨ FreedUnit σ σ' 1) := by
  have hrun : ∃ σ, Reaches (Step Distinct) freeMutexes σ ∧ waitsOn σ.kernel 1 = [0, 1] ∧
      Enabled σ (.release 1) ∧ ∃ σ', step 1 σ (.release 1) = .ok σ' := by
    refine ⟨_, ((Relation.ReflTransGen.refl.tail
      ⟨.acquire 0 [0] timeoutInfinite none, 1, ⟨rfl, rfl, by simp, by simp⟩, by simp [Distinct],
        rfl⟩).tail
      ⟨.acquire 0 [1] timeoutInfinite none, 1, ⟨rfl, rfl, by simp, by simp⟩, by simp [Distinct],
        rfl⟩).tail
      ⟨.acquire 1 [0, 1] timeoutInfinite (some 0), 1,
        ⟨rfl, rfl, by simp, fun _ _ => rfl⟩, by simp [Distinct], rfl⟩, rfl, ?_, _, rfl⟩
    show (0 : Int) < 0 + 1
    decide
  obtain ⟨σ, hr, hwait, he, σ', hstep⟩ := hrun
  obtain ⟨hsafe, -, hrelease⟩ := semaphore_safety freeMutexes_started hr
  exact ⟨σ, σ', hr, hstep, hsafe 1, hwait, hrelease 1 he 1 σ' hstep⟩

/-! ## Waiting lists -/

/-- The waiting list of `k` holds `l`, and each thread that waits on `k` is on it once. -/
structure Listed (s : Kernel) (k : Nat) (l : List WaitObj) : Prop where
  chain : Chain (nextIn s k) (s.sem k).waitingListStart l
  nodup : l.Nodup
  last : (s.sem k).waitingListEnd = l.getLast?
  /-- Every clot on the list is allocated and has a link for `k`. -/
  linkable : ∀ w ∈ l, Linkable s k w
  once : ∀ t, l.countP (fun w => ownerOf s w = t) = if k ∈ waitsOn s t then 1 else 0

/-- `t` is on no semaphore list and no timer list, and has no clot. -/
structure OffLists (s : Kernel) (t : Nat) : Prop where
  sems : waitsOn s t = []
  clots : ∀ c cl, s.clot c = some cl → cl.thr ≠ t
  timer : ∃ tl, Chain (fun u => (s.thr u).nextWaitingTimer) s.firstWaitingTimer tl ∧ t ∉ tl

/-- How a call that waited on `sems` ends: with an error, or with the place of the released one. -/
def NamesReleased (σ : System) (t : Nat) (sems : List Nat) : Prop :=
  (∃ err, 0 < err ∧ acquireResult σ.kernel t = .returned err none) ∨
    ∃ i k, acquireResult σ.kernel t = .returned 0 (some i) ∧ σ.ghost.handed t = some k ∧
      sems[i]? = some k

structure WellQueued (σ : System) : Prop where
  listed : ∀ k, ∃ l, Listed σ.kernel k l
  /-- A thread that waits in a call waits on all the semaphores of its array. -/
  waiting : ∀ t sems, σ.ghost.pending t = some sems → (σ.kernel.thr t).blocked = true →
    waitsOn σ.kernel t = sems
  woken : ∀ t, (σ.kernel.thr t).blocked = false → OffLists σ.kernel t
  result : ∀ t sems, σ.ghost.pending t = some sems → (σ.kernel.thr t).blocked = false →
    NamesReleased σ t sems

/-- Who stays on a list keeps its place, and at most one waiter joins at the end. -/
def OrderKept (σ σ' : System) : Prop :=
  ∀ k l l', Listed σ.kernel k l → Listed σ'.kernel k l' → ∃ new, l' =
    (l.filter fun w => (σ'.kernel.thr (ownerOf σ.kernel w)).blocked) ++ new ∧ new.length ≤ 1

section GoodAt

variable {σ σ' : System} {q : Nat → List WaitObj} {tl : List Nat} {n : Nat}

theorem GoodAt.listed (h : GoodAt σ q tl n) (k : Nat) : Listed σ.kernel k (q k) := by
  have hq := h.inv.waits.queues
  refine ⟨hq.chain k, hq.nodup k, hq.last k, hq.linkable k, fun t => ?_⟩
  split
  · next hk =>
    obtain ⟨w, hw, rfl⟩ := h.waits_iff.mp hk
    rw [← List.count_eq_one_of_mem (hq.nodup k) hw]
    refine List.countP_congr fun v hv => ?_
    simp only [decide_eq_true_eq, beq_iff_eq]
    exact ⟨fun heq => hq.owners k v w hv hw heq, fun heq => by rw [heq]⟩
  · next hk =>
    rw [List.countP_eq_zero]
    intro w hw howner
    exact hk (h.waits_iff.mpr ⟨w, hw, by simpa using howner⟩)

theorem GoodAt.offLists (h : GoodAt σ q tl n) {t : Nat} (ht : (σ.kernel.thr t).blocked = false) :
    OffLists σ.kernel t := by
  have hwait := h.inv.not_waiting ht
  refine ⟨by simp [waitsOn, hwait], ?_, tl, h.inv.timed.chain, fun hmem => ?_⟩
  · rintro c cl hc rfl
    have := (h.inv.waits.clot_ok c cl hc).1
    simp [hwait] at this
  · have := h.inv.asleep t (Or.inr ((h.inv.timed.mem t).mp hmem))
    simp [ht] at this

theorem Ended.namesReleased {t : Nat} {sems : List Nat}
    (h : Ended σ.kernel σ.ghost t sems) : NamesReleased σ t sems := by
  unfold NamesReleased acquireResult
  rcases h with hpos | ⟨k, i, hk, hr, hi⟩
  · rw [if_pos hpos]
    exact Or.inl ⟨_, by omega, rfl⟩
  · rw [hr, if_neg (by omega)]
    exact Or.inr ⟨i, k, by simp, hk, hi⟩

theorem GoodAt.wellQueued (h : GoodAt σ q tl n) : WellQueued σ :=
  ⟨fun k => ⟨q k, h.listed k⟩, h.pending, fun _ ht => h.offLists ht,
    fun t sems hp hb => (h.ended t sems hp hb).namesReleased⟩

theorem GoodAt.orderKept {q' : Nat → List WaitObj} {tl' : List Nat} {n' : Nat}
    (h : GoodAt σ q tl n) (h' : GoodAt σ' q' tl' n') (horder : InOrder σ q σ' q') :
    OrderKept σ σ' := by
  intro k l l' hl hl'
  rw [hl.chain.unique (h.listed k).chain, hl'.chain.unique (h'.listed k).chain]
  exact horder k

end GoodAt

/--
**Wait-queue membership.** While no call that has to wait has an array in which a semaphore is
repeated, the waiting lists are well formed and hold each waiting thread once, a thread that
has been woken is on none, its result names the semaphore that was released to it, and every
step returns and keeps the order of the lists.
-/
theorem wait_queue_membership {σ₀ σ : System} (h0 : Started σ₀)
    (hr : Reaches (Step NoRepeatWait) σ₀ σ) :
    WellQueued σ ∧ ∀ e, Enabled σ e → NoRepeatWait σ e →
      (∃ fuel σ', step fuel σ e = .ok σ') ∧
      ∀ fuel σ', step fuel σ e = .ok σ' → OrderKept σ σ' := by
  obtain ⟨q, tl, n, h⟩ := reaches_good h0 hr
  refine ⟨h.wellQueued, fun e he hno => ⟨step_returns h0 hr he hno, fun fuel σ' hstep => ?_⟩⟩
  obtain ⟨q', tl', n', h', horder⟩ := (step_keeps h he hno fuel).of_ok hstep
  exact h.orderKept h' horder

/-- Thread 1 waits for two mutexes and has been given the second. -/
theorem wait_queue_membership_handed : ∃ σ, Reaches (Step NoRepeatWait) freeMutexes σ ∧
    acquireResult σ.kernel 1 = .returned 0 (some 1) ∧ WellQueued σ := by
  have hrun : ∃ σ, Reaches (Step NoRepeatWait) freeMutexes σ ∧
      acquireResult σ.kernel 1 = .returned 0 (some 1) := by
    refine ⟨_, (((Relation.ReflTransGen.refl.tail
      ⟨.acquire 0 [0] timeoutInfinite none, 1, ⟨rfl, rfl, by simp, by simp⟩, fun _ => by simp,
        rfl⟩).tail
      ⟨.acquire 0 [1] timeoutInfinite none, 1, ⟨rfl, rfl, by simp, by simp⟩, fun _ => by simp,
        rfl⟩).tail
      ⟨.acquire 1 [0, 1] timeoutInfinite (some 0), 1,
        ⟨rfl, rfl, by simp, fun _ _ => rfl⟩, fun _ => by simp, rfl⟩).tail
      ⟨.release 1, 1, ?_, trivial, rfl⟩, rfl⟩
    show (0 : Int) < 0 + 1
    decide
  obtain ⟨σ, hr, hres⟩ := hrun
  exact ⟨σ, hr, hres, (wait_queue_membership freeMutexes_started hr).1⟩

/-- A mutex that is taken is waited for twice in one call: its waiting list is a cycle. -/
theorem repeated_sem_not_wellQueued : Started freeMutexes ∧
    ∃ σ, Reaches (Step AnyEvent) freeMutexes σ ∧ ¬ WellQueued σ := by
  have hrun : ∃ σ, Reaches (Step AnyEvent) freeMutexes σ ∧
      (σ.kernel.sem 0).waitingListStart = some (.clot 0) ∧
      nextIn σ.kernel 0 (.clot 0) = some (.clot 0) := by
    exact ⟨_, (Relation.ReflTransGen.refl.tail
      ⟨.acquire 0 [0] timeoutInfinite none, 1, ⟨rfl, rfl, by simp, by simp⟩, trivial, rfl⟩).tail
      ⟨.acquire 1 [0, 0] timeoutInfinite (some 0), 1,
        ⟨rfl, rfl, by simp, fun _ _ => rfl⟩, trivial, rfl⟩, rfl, rfl⟩
  obtain ⟨σ, hr, hstart, hnext⟩ := hrun
  refine ⟨freeMutexes_started, σ, hr, fun h => ?_⟩
  obtain ⟨l, hl⟩ := h.listed 0
  have hchain := hl.chain
  rw [hstart] at hchain
  exact not_chain_of_self hnext l hchain

end Nolrem.Sync
