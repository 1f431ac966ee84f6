import Nolrem.Sync.Create
import Nolrem.Sync.Safety

/-!
# Waits without memory

`AcquireSemFromMany` with more than one semaphore needs a clot, which `CreateClot` makes of three
blocks. The timer has been started by then.
-/

namespace Nolrem.Sync.Create

open Nolrem.Lib

/-! ## `CreateClot` -/

/-- What the heap answers, in the order of the calls. It returns different blocks. -/
structure ClotAnswers where
  clot : Option Nat
  sems : Option Nat
  nexts : Option Nat
  different : ([clot, sems, nexts].filterMap id).Nodup

/-- `sizeof(struct wait_clot)` -/
def sizeofWaitClot : UInt32 := 20

/-- `CreateClot` for `count` semaphores: where the clot is -/
def createClot (h : HeapLog) (a : ClotAnswers) (count : Nat) : Option Nat × HeapLog :=
  match h.allocHeap sizeofWaitClot a.clot with
  | (none, h) => (none, h)
  | (some clot, h) =>
    match h.allocHeap (4 * UInt32.ofNat count) a.sems with
    | (none, h) => (none, h.freeHeap clot)
    | (some sems, h) =>
      match h.allocHeap (4 * UInt32.ofNat count) a.nexts with
      | (none, h) => (none, (h.freeHeap sems).freeHeap clot)
      | (some _, h) => (some clot, h)

variable {sem₀ : Nat → Sem} {a : ClotAnswers} {count : Nat}

/-- A clot that could not be made leaves nothing behind. -/
theorem createClot_freed (h : (createClot (.start sem₀) a count).1 = none) :
    AllFreed (createClot (.start sem₀) a count).2 := by
  have hdiff := a.different
  unfold createClot at h ⊢
  cases hclot : a.clot with
  | none =>
    rw [allocHeap_none]
    exact ⟨List.nodup_nil, List.Perm.nil, rfl⟩
  | some clot =>
    rw [hclot, allocHeap_some (by decide)] at h
    rw [allocHeap_some (by decide)]
    dsimp only at h ⊢
    generalize 4 * UInt32.ofNat count = size at h ⊢
    by_cases hsize : size = 0
    · rw [hsize, allocHeap_zero]
      exact ⟨List.nodup_singleton _, List.Perm.refl _, rfl⟩
    · cases hsems : a.sems with
      | none =>
        rw [allocHeap_none]
        exact ⟨List.nodup_singleton _, List.Perm.refl _, rfl⟩
      | some sems =>
        rw [hsems, allocHeap_some hsize] at h
        rw [allocHeap_some hsize]
        dsimp only at h ⊢
        cases hnexts : a.nexts with
        | none =>
          rw [allocHeap_none]
          simp only [hclot, hsems, List.filterMap_cons, id_eq] at hdiff
          refine ⟨?_, List.Perm.swap .., rfl⟩
          exact hdiff.sublist (by simp [HeapLog.freeHeap, HeapLog.start])
        | some nexts =>
          rw [hnexts, allocHeap_some hsize] at h
          cases h

/-! ## The call -/

/-- The time of a wait with this timeout is not over yet. -/
def NotPast (s : Kernel) (timeout : Int) : Prop :=
  s.nsSinceBoot <
    ((timeout % 18446744073709551616).toNat + s.nsSinceBoot) % 18446744073709551616

/-- A call that gets to the clot with the timer started, and gets no clot -/
structure FailsAsleep (s : Kernel) (sems : List Nat) (timeout : Int) (alloc : Option Nat) :
    Prop where
  schedInit : s.schedInit = true
  taken : firstFree s sems = none
  finite : timeout ≠ timeoutInstant ∧ timeout ≠ timeoutInfinite
  notPast : NotPast s timeout
  alloc : alloc = none

/-- The call of `t` had no effect. -/
structure NoEffect (s s' : Kernel) (t : Nat) : Prop where
  blocked : (s'.thr t).blocked = false
  offLists : OffLists s' t
  wakeup : (s'.thr t).wakeupTimeNs = 0
  counts : ∀ k, (s'.sem k).count = (s.sem k).count
  clots : s'.clot = s.clot

variable {s s' : Kernel} {t fuel : Nat} {sems : List Nat} {timeout : Int} {alloc : Option Nat}

theorem addThreadToSemQueues_none (h : 2 ≤ sems.length) :
    addThreadToSemQueues s t sems none = .ok (s, eNoMem) := by
  match sems, h with
  | _ :: _ :: _, _ => rfl

/-- With a clot the call does not return `ENOMEM`. -/
theorem addThreadToSemQueues_some {c res : Nat} (h : 2 ≤ sems.length)
    (hok : addThreadToSemQueues s t sems (some c) = .ok (s', res)) : res = 0 := by
  match sems, h with
  | k :: k' :: rest, _ =>
    unfold addThreadToSemQueues at hok
    simp only [bind, Except.bind] at hok
    split at hok
    · cases hok
    · cases hok
      rfl

/-- A call that goes on after the timer -/
theorem startTimeout_added (h : startTimeout fuel s t timeout = .ok (s', true)) :
    s' = s ∨ timeout ≠ timeoutInfinite ∧ NotPast s timeout := by
  unfold startTimeout at h
  split at h
  · next hfinite =>
    refine .inr ⟨hfinite.2, ?_⟩
    unfold addThreadToSleepQueue at h
    simp only [if_true] at h
    split at h
    · cases h
    · next hpast =>
      unfold NotPast
      omega
  · cases h
    exact .inl rfl

/-- A call that returns `ENOMEM` left everything as it was, or it fell asleep before. -/
theorem acquire_eNoMem (hlen : 2 ≤ sems.length)
    (h : acquireSemFromMany fuel s t sems timeout alloc = .ok (s', .returned eNoMem none)) :
    alloc = none ∧ (s' = s ∨ FailsAsleep s sems timeout alloc) := by
  unfold acquireSemFromMany at h
  split at h
  · cases h
  · next hinit =>
    split at h
    · split at h
      · cases h
      · cases h
    · next hfree =>
      unfold waitForMany at h
      split at h
      · cases h
      · next hinstant =>
        cases hstart : startTimeout fuel s t timeout with
        | error e =>
          rw [hstart] at h
          cases h
        | ok r =>
          obtain ⟨s₁, added⟩ := r
          rw [hstart] at h
          simp only [bind, Except.bind] at h
          split at h
          · cases h
          · next hadded =>
            cases alloc with
            | none =>
              rw [addThreadToSemQueues_none hlen] at h
              dsimp only at h
              rw [if_pos (show eNoMem ≠ 0 by decide)] at h
              obtain rfl : s₁ = s' := by simpa using h
              obtain rfl : added = true := by simpa using hadded
              refine ⟨rfl, (startTimeout_added hstart).imp_right fun ⟨hinf, hpast⟩ => ?_⟩
              exact ⟨by simpa using hinit, hfree, ⟨hinstant, hinf⟩, hpast, rfl⟩
            | some c =>
              cases hq : addThreadToSemQueues s₁ t sems (some c) with
              | error e =>
                rw [hq] at h
                cases h
              | ok r =>
                rw [hq] at h
                have hres : r.2 = 0 := addThreadToSemQueues_some hlen hq
                simp only [hres, ne_eq, not_true_eq_false, if_false] at h
                cases h

/-- A call that falls asleep and then gets no clot returns `ENOMEM`, and its thread is blocked. -/
theorem acquire_asleep (hlen : 2 ≤ sems.length) (hoff : OffLists s t)
    (h : FailsAsleep s sems timeout alloc) :
    ∃ fuel s', acquireSemFromMany fuel s t sems timeout alloc =
        .ok (s', .returned eNoMem none) ∧ (s'.thr t).blocked = true := by
  obtain ⟨tl, hchain, hmem⟩ := hoff.timer
  obtain ⟨hinit, hfree, ⟨hinstant, hinf⟩, hpast, rfl⟩ := h
  unfold NotPast at hpast
  refine ⟨tl.length + 1, ?_⟩
  unfold acquireSemFromMany waitForMany startTimeout addThreadToSleepQueue
  rw [if_neg (by rw [hinit]; decide), hfree]
  dsimp only
  rw [if_neg hinstant, if_pos ⟨hinstant, hinf⟩, if_pos rfl, if_neg (Nat.not_le.mpr hpast)]
  generalize ((timeout % 18446744073709551616).toNat + s.nsSinceBoot) % 18446744073709551616 = ns
  generalize hs₁ : ({ s with
      nextWakeupNs := if s.nextWakeupNs = 0 ∨ ns < s.nextWakeupNs then ns
        else s.nextWakeupNs } : Kernel).setThr t (fun th => { th with wakeupTimeNs := ns }) = s₁
  have hchain₁ : Chain (fun u => (s₁.thr u).nextWaitingTimer) s₁.firstWaitingTimer tl := by
    rw [← hs₁]
    refine hchain.congr fun u _ => ?_
    by_cases hu : u = t
    · subst hu
      simp
    · simp [hu]
  have hspec := @insertTimer_spec s₁ tl t ns hchain₁ hmem (tl.length + 1)
  obtain ⟨s₂, hinsert, -⟩ := hspec.exists_ok fun e he => absurd he.2 (by omega)
  refine ⟨blockThread s₂ t, ?_, by simp [blockThread]⟩
  rw [hinsert]
  simp only [bind, Except.bind, Bool.true_eq_false, if_false]
  rw [addThreadToSemQueues_none hlen]
  simp [eNoMem]

/--
A wait that fails for lack of memory has no effect exactly when it does not get to the clot with the
timer started: then the thread sleeps until its timeout is over, and only then the call returns.
-/
theorem no_memory_no_effect_iff (s : Kernel) (t : Nat) (sems : List Nat) (timeout : Int)
    (a : ClotAnswers) (sem₀ : Nat → Sem) (hlen : 2 ≤ sems.length)
    (hrun : (s.thr t).blocked = false) (hwakeup : (s.thr t).wakeupTimeNs = 0)
    (hoff : OffLists s t) :
    (∀ fuel s', acquireSemFromMany fuel s t sems timeout
          (createClot (.start sem₀) a sems.length).1 = .ok (s', .returned eNoMem none) →
        NoEffect s s' t ∧ AllFreed (createClot (.start sem₀) a sems.length).2) ↔
      ¬ FailsAsleep s sems timeout (createClot (.start sem₀) a sems.length).1 := by
  constructor
  · intro h hasleep
    obtain ⟨fuel, s', hret, hblocked⟩ := acquire_asleep hlen hoff hasleep
    have heffect := (h fuel s' hret).1.blocked
    rw [hblocked] at heffect
    cases heffect
  · intro h fuel s' hret
    obtain ⟨halloc, hs | hasleep⟩ := acquire_eNoMem hlen hret
    · subst hs
      exact ⟨⟨hrun, hoff, hwakeup, fun _ => rfl, rfl⟩, createClot_freed halloc⟩
    · exact absurd hasleep h

/-- Every semaphore is taken, and nobody waits. -/
def allTaken : Kernel where
  thr := fun _ => ⟨false, none, none, none, 0, 0⟩
  sem := fun _ => initStaticSem 1 1
  clot := fun _ => none
  schedInit := true
  nsSinceBoot := 1
  nextWakeupNs := 0
  firstWaitingTimer := none

/-- There is memory for the clot, and for nothing else. -/
def oneBlock : ClotAnswers := ⟨some 4096, none, none, by decide⟩

theorem allTaken_offLists : OffLists allTaken 0 where
  sems := rfl
  clots := nofun
  timer := ⟨[], rfl, List.not_mem_nil⟩

theorem no_memory_no_effect_iff_infinite :
    ¬ FailsAsleep allTaken [0, 1] timeoutInfinite
        (createClot (.start allTaken.sem) oneBlock 2).1 ∧
      ∀ fuel s', acquireSemFromMany fuel allTaken 0 [0, 1] timeoutInfinite
          (createClot (.start allTaken.sem) oneBlock 2).1 = .ok (s', .returned eNoMem none) →
        NoEffect allTaken s' 0 ∧ AllFreed (createClot (.start allTaken.sem) oneBlock 2).2 := by
  have hawake : ¬ FailsAsleep allTaken [0, 1] timeoutInfinite
      (createClot (.start allTaken.sem) oneBlock 2).1 := fun h => h.finite.2 rfl
  exact ⟨hawake, (no_memory_no_effect_iff allTaken 0 [0, 1] timeoutInfinite oneBlock allTaken.sem
    (by decide) rfl rfl allTaken_offLists).mpr hawake⟩

/-- With a timeout of 100 ns the thread sleeps and then the call returns `ENOMEM`. -/
theorem no_memory_sleeps :
    ∃ s', acquireSemFromMany 1 allTaken 0 [0, 1] 100
        (createClot (.start allTaken.sem) oneBlock 2).1 = .ok (s', .returned eNoMem none) ∧
      (s'.thr 0).blocked = true ∧ (s'.thr 0).wakeupTimeNs = 101 ∧ s'.firstWaitingTimer = some 0 ∧
      ¬ NoEffect allTaken s' 0 := by
  refine ⟨_, rfl, rfl, rfl, rfl, fun h => ?_⟩
  have hblocked := h.blocked
  revert hblocked
  decide

end Nolrem.Sync.Create
