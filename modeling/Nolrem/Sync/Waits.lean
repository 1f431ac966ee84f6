import Nolrem.Sync.Timers

/-!
# Waiting threads

`InvAt s q tl n` ties the waiting lists `q` and the timer list `tl` to the threads: who is
on which list follows from `waiting_sem_or_clot` and `wakeup_time_ns`, and whoever is on a
list is blocked. `UnblockThread` takes one thread off all of its lists and leaves the order
of the others as it is; `Woke` says so for a call that wakes any number of threads.
-/

namespace Nolrem.Sync

open Nolrem.Lib

/-- The semaphores that `t` waits on. -/
def waitsOn (s : Kernel) (t : Nat) : List Nat :=
  match (s.thr t).waitingSemOrClot with
  | none => []
  | some (.sem k) => [k]
  | some (.clot c) =>
    match s.clot c with
    | none => []
    | some cl => cl.sems

/-- A waiting list without the objects of `t`. -/
def without (s : Kernel) (t : Nat) (l : List WaitObj) : List WaitObj :=
  l.filter fun w => ownerOf s w ≠ t

theorem mem_without {s : Kernel} {t : Nat} {l : List WaitObj} {w : WaitObj} :
    w ∈ without s t l ↔ w ∈ l ∧ ownerOf s w ≠ t := by
  simp [without]

/-- The waiting lists agree with what the threads and the clots say. -/
structure Waits (s : Kernel) (q : Nat → List WaitObj) : Prop where
  queues : Queues s q
  thread_mem : ∀ t k, .thread t ∈ q k ↔ (s.thr t).waitingSemOrClot = some (.sem k)
  clot_mem : ∀ c k, .clot c ∈ q k ↔ ∃ cl, s.clot c = some cl ∧ k ∈ cl.sems
  clot_ok : ∀ c cl, s.clot c = some cl → (s.thr cl.thr).waitingSemOrClot = some (.clot c) ∧
    cl.sems.Nodup ∧ cl.sems ≠ [] ∧ cl.nexts.length = cl.sems.length
  clot_live : ∀ t c, (s.thr t).waitingSemOrClot = some (.clot c) →
    ∃ cl, s.clot c = some cl ∧ cl.thr = t

theorem Waits.mem_waitsOn {s : Kernel} {q : Nat → List WaitObj} (h : Waits s q) {k : Nat}
    {w : WaitObj} (hw : w ∈ q k) : k ∈ waitsOn s (ownerOf s w) ∧
      (s.thr (ownerOf s w)).waitingSemOrClot ≠ none := by
  cases w with
  | thread t =>
    have := (h.thread_mem t k).mp hw
    simp [waitsOn, ownerOf, this]
  | clot c =>
    obtain ⟨cl, hc, hk⟩ := (h.clot_mem c k).mp hw
    have := (h.clot_ok c cl hc).1
    simp [waitsOn, ownerOf, hc, this, hk]

/-- A thread that waits on `k` is on the list of `k`. -/
theorem Waits.exists_mem {s : Kernel} {q : Nat → List WaitObj} (h : Waits s q) {t k : Nat}
    (hk : k ∈ waitsOn s t) : ∃ w ∈ q k, ownerOf s w = t := by
  unfold waitsOn at hk
  split at hk
  · simp at hk
  · next j hj =>
    obtain rfl := List.mem_singleton.mp hk
    exact ⟨.thread t, (h.thread_mem t k).mpr hj, rfl⟩
  · next c hc =>
    obtain ⟨cl, hcl, rfl⟩ := h.clot_live t c hc
    simp only [hcl] at hk
    exact ⟨.clot c, (h.clot_mem c k).mpr ⟨cl, hcl, hk⟩, by simp [ownerOf, hcl]⟩

theorem without_of_not_mem {s : Kernel} {t : Nat} {l : List WaitObj}
    (h : ∀ w ∈ l, ownerOf s w ≠ t) : without s t l = l := by
  unfold without
  rw [List.filter_eq_self]
  simpa using h

theorem Queues.without_eq_erase {s : Kernel} {q : Nat → List WaitObj} (h : Queues s q) {k : Nat}
    {w : WaitObj} (hw : w ∈ q k) : without s (ownerOf s w) (q k) = (q k).erase w := by
  rw [(h.nodup k).erase_eq_filter]
  unfold without
  refine List.filter_congr fun v hv => ?_
  by_cases hvw : v = w
  · subst hvw
    simp
  · have : ownerOf s v ≠ ownerOf s w := fun ho => hvw (h.owners k v w hv hw ho)
    simp [this, hvw]

/-! ## Leaving the waiting lists -/

theorem Queues.setThr {s : Kernel} {q : Nat → List WaitObj} (h : Queues s q) {t : Nat}
    (f : Thread → Thread) (ht : ∀ k, .thread t ∉ q k) : Queues (s.setThr t f) q := by
  have hnext : ∀ k, ∀ w ∈ q k, nextIn (s.setThr t f) k w = nextIn s k w := by
    intro k w hw
    cases w with
    | thread u =>
      have hut : u ≠ t := by
        rintro rfl
        exact ht k hw
      simp [nextIn, hut]
    | clot c => rfl
  refine ⟨fun k => (h.chain k).congr (hnext k), h.last, fun k w hw => ?_, h.bare, ?_⟩
  · have := h.linkable k w hw
    cases w <;> exact this
  · intro k w w' hw hw' ho
    refine h.owners k w w' hw hw' ?_
    cases w <;> cases w' <;> exact ho

theorem Queues.setClot {s : Kernel} {q : Nat → List WaitObj} (h : Queues s q) {c : Nat}
    (x : Option WaitClot) (hc : ∀ k, .clot c ∉ q k) : Queues (s.setClot c x) q := by
  have hne : ∀ k c', .clot c' ∈ q k → c' ≠ c := by
    rintro k c' hw rfl
    exact hc k hw
  have hnext : ∀ k, ∀ w ∈ q k, nextIn (s.setClot c x) k w = nextIn s k w := by
    intro k w hw
    cases w with
    | thread u => rfl
    | clot c' => simp [nextIn, hne k c' hw]
  have howner : ∀ k, ∀ w ∈ q k, ownerOf (s.setClot c x) w = ownerOf s w := by
    intro k w hw
    cases w with
    | thread u => rfl
    | clot c' => simp [ownerOf, hne k c' hw]
  refine ⟨fun k => (h.chain k).congr (hnext k), h.last, fun k w hw => ?_, h.bare, ?_⟩
  · have := h.linkable k w hw
    cases w with
    | thread u => trivial
    | clot c' =>
      obtain ⟨cl, i, h1, h2⟩ := this
      exact ⟨cl, i, by simpa [hne k c' hw] using h1, h2⟩
  · intro k w w' hw hw' ho
    rw [howner k w hw, howner k w' hw'] at ho
    exact h.owners k w w' hw hw' ho

/-- `s'` is `s` but for the waiting lists, and `t` no longer waits. -/
structure SemsLeft (s s' : Kernel) (t : Nat) : Prop where
  thr : ∀ u, ∃ next, s'.thr u =
    { s.thr u with
      nextWaitingSem := next
      waitingSemOrClot := if u = t then none else (s.thr u).waitingSemOrClot }
  sem : ∀ k, (s'.sem k).count = (s.sem k).count ∧ (s'.sem k).max = (s.sem k).max
  clot : ∀ c cl', s'.clot c = some cl' → ∃ cl, s.clot c = some cl ∧ cl'.thr = cl.thr ∧
    cl'.sems = cl.sems
  schedInit : s'.schedInit = s.schedInit
  nsSinceBoot : s'.nsSinceBoot = s.nsSinceBoot
  firstWaitingTimer : s'.firstWaitingTimer = s.firstWaitingTimer

/-- The end of `CancelSems`, when `t` is on no list any more. -/
theorem Requeued.semsLeft {s s1 s2 : Kernel} {t : Nat} (hr : Requeued s s1)
    (h2 : s2 = s1 ∨ ∃ c, s2 = s1.setClot c none) :
    SemsLeft s (s2.setThr t fun th =>
      { th with waitingSemOrClot := none, nextWaitingSem := none }) t := by
  have hthr : s2.thr = s1.thr ∧ s2.sem = s1.sem ∧ s2.schedInit = s1.schedInit ∧
      s2.nsSinceBoot = s1.nsSinceBoot ∧ s2.firstWaitingTimer = s1.firstWaitingTimer := by
    rcases h2 with rfl | ⟨c, rfl⟩ <;> simp
  obtain ⟨h3, h4, h5, h6, h7⟩ := hthr
  refine ⟨fun u => ?_, fun k => ?_, fun c cl' hc => ?_, h5.trans hr.schedInit,
    h6.trans hr.nsSinceBoot, h7.trans hr.firstWaitingTimer⟩
  · obtain ⟨n, hn⟩ := hr.thr u
    by_cases hu : u = t
    · subst hu
      exact ⟨none, by simp [h3, hn]⟩
    · exact ⟨n, by simp [h3, hn, hu]⟩
  · show (s2.sem k).count = _ ∧ (s2.sem k).max = _
    rw [h4]
    exact hr.sem k
  · have hc1 : s1.clot c = some cl' := by
      rcases h2 with rfl | ⟨c', rfl⟩
      · exact hc
      · by_cases hcc : c = c'
        · simp [hcc] at hc
        · simpa [hcc] using hc
    rcases hr.clot c with ⟨h8, -⟩ | ⟨cl, nexts, h8, h9, -⟩
    · rw [hc1] at h8
      simp at h8
    · rw [hc1] at h9
      obtain rfl := Option.some.inj h9
      exact ⟨cl, h8, rfl, rfl⟩

/-- The lists and the threads still agree when `t` has left. -/
theorem Waits.left {s s' : Kernel} {q : Nat → List WaitObj} {t : Nat} (h : Waits s q)
    (hl : SemsLeft s s' t) (hq : Queues s' fun k => without s t (q k))
    (hclot : ∀ c cl, s.clot c = some cl → cl.thr ≠ t → ∃ nexts,
      s'.clot c = some { cl with nexts := nexts } ∧ nexts.length = cl.nexts.length)
    (hfreed : ∀ c cl, s.clot c = some cl → cl.thr = t → s'.clot c = none) :
    Waits s' fun k => without s t (q k) := by
  have hold : ∀ c cl', s'.clot c = some cl' → ∃ cl, s.clot c = some cl ∧ cl.thr ≠ t ∧
      cl'.thr = cl.thr ∧ cl'.sems = cl.sems := by
    intro c cl' hc
    obtain ⟨cl, h1, h2, h3⟩ := hl.clot c cl' hc
    refine ⟨cl, h1, fun ht => ?_, h2, h3⟩
    rw [hfreed c cl h1 ht] at hc
    simp at hc
  have hwait : ∀ u, u ≠ t → (s'.thr u).waitingSemOrClot = (s.thr u).waitingSemOrClot := by
    intro u hu
    obtain ⟨n, hn⟩ := hl.thr u
    simp [hn, hu]
  have hself : (s'.thr t).waitingSemOrClot = none := by
    obtain ⟨n, hn⟩ := hl.thr t
    simp [hn]
  refine ⟨hq, fun u k => ?_, fun c k => ?_, fun c cl' hc => ?_, fun u c hc => ?_⟩
  · rw [mem_without, h.thread_mem]
    by_cases hu : u = t
    · subst hu
      simp [hself, ownerOf]
    · simp [hwait u hu, ownerOf, hu]
  · rw [mem_without, h.clot_mem]
    constructor
    · rintro ⟨⟨cl, hc, hk⟩, ho⟩
      obtain ⟨nexts, h1, -⟩ := hclot c cl hc (by simpa [ownerOf, hc] using ho)
      exact ⟨_, h1, hk⟩
    · rintro ⟨cl', hc, hk⟩
      obtain ⟨cl, h1, h2, -, h4⟩ := hold c cl' hc
      exact ⟨⟨cl, h1, h4 ▸ hk⟩, by simpa [ownerOf, h1] using h2⟩
  · obtain ⟨cl, h1, h2, -, -⟩ := hold c cl' hc
    obtain ⟨nexts, h3, h4⟩ := hclot c cl h1 h2
    rw [hc] at h3
    obtain rfl := Option.some.inj h3
    obtain ⟨h5, h6, h7, h8⟩ := h.clot_ok c cl h1
    exact ⟨by rw [hwait _ h2, h5], h6, h7, h4.trans h8⟩
  · have hut : u ≠ t := by
      rintro rfl
      rw [hself] at hc
      simp at hc
    rw [hwait u hut] at hc
    obtain ⟨cl, h1, h2⟩ := h.clot_live u c hc
    obtain ⟨nexts, h3, -⟩ := hclot c cl h1 (by rw [h2]; exact hut)
    exact ⟨_, h3, h2⟩

/-- A clot that was there is there, but for its links. -/
theorem Requeued.clot_some {s s1 : Kernel} (hr : Requeued s s1) {c : Nat} {cl : WaitClot}
    (hc : s.clot c = some cl) : ∃ nexts, s1.clot c = some { cl with nexts := nexts } ∧
      nexts.length = cl.nexts.length := by
  rcases hr.clot c with ⟨-, h1⟩ | ⟨cl', nexts, h1, h2, h3⟩
  · rw [hc] at h1
    simp at h1
  · rw [hc] at h1
    obtain rfl := Option.some.inj h1
    exact ⟨nexts, h2, h3⟩

section Cancel

variable {s : Kernel} {q : Nat → List WaitObj} {t n : Nat}

/-- A thread that waits for one semaphore is on the list of that one, and on no other. -/
theorem Waits.owned_sem (h : Waits s q) {k : Nat} (hw : (s.thr t).waitingSemOrClot = some (.sem k))
    {j : Nat} {w : WaitObj} (hwj : w ∈ q j) (ho : ownerOf s w = t) : w = .thread t ∧ j = k := by
  cases w with
  | thread u =>
    obtain rfl : u = t := ho
    have := (h.thread_mem u j).mp hwj
    rw [hw] at this
    exact ⟨rfl, by simpa using this.symm⟩
  | clot c =>
    obtain ⟨cl, hc, -⟩ := (h.clot_mem c j).mp hwj
    have hcl := (h.clot_ok c cl hc).1
    have hthr : cl.thr = t := by simpa [ownerOf, hc] using ho
    rw [hthr, hw] at hcl
    simp at hcl

/-- A thread that waits with a clot has the clot on the lists of its semaphores. -/
theorem Waits.owned_clot (h : Waits s q) {c : Nat} {cl : WaitClot}
    (hw : (s.thr t).waitingSemOrClot = some (.clot c)) (hc : s.clot c = some cl) {j : Nat}
    {w : WaitObj} (hwj : w ∈ q j) (ho : ownerOf s w = t) : w = .clot c ∧ j ∈ cl.sems := by
  cases w with
  | thread u =>
    obtain rfl : u = t := ho
    have := (h.thread_mem u j).mp hwj
    rw [hw] at this
    simp at this
  | clot c' =>
    obtain ⟨cl', hc', hj⟩ := (h.clot_mem c' j).mp hwj
    have hcl := (h.clot_ok c' cl' hc').1
    have hthr' : cl'.thr = t := by simpa [ownerOf, hc'] using ho
    rw [hthr', hw] at hcl
    obtain rfl : c = c' := by simpa using hcl
    rw [hc] at hc'
    obtain rfl := Option.some.inj hc'
    exact ⟨rfl, hj⟩

/-- What is erased is all that the thread owns. -/
theorem Waits.erase_eq_without (h : Waits s q) {w : WaitObj} {sems : List Nat}
    (ho : ownerOf s w = t) (hmem : ∀ k ∈ sems, w ∈ q k)
    (howner : ∀ j, ∀ w' ∈ q j, ownerOf s w' = t → j ∈ sems) :
    (fun k => if k ∈ sems then (q k).erase w else q k) = fun k => without s t (q k) := by
  funext k
  by_cases hk : k ∈ sems
  · rw [if_pos hk, ← ho]
    exact (h.queues.without_eq_erase (hmem k hk)).symm
  · rw [if_neg hk]
    exact (without_of_not_mem fun w' hw' ho' => hk (howner k w' hw' ho')).symm

theorem Waits.cancel_sem (h : Waits s q) (hn : ∀ k, (q k).length ≤ n) (fuel : Nat) {k : Nat}
    (hw : (s.thr t).waitingSemOrClot = some (.sem k)) :
    Ends (cancelSems fuel s t)
      (fun s' => Waits s' (fun k => without s t (q k)) ∧ SemsLeft s s' t)
      (fun e => e = .outOfFuel ∧ fuel ≤ n) := by
  have hmem := (h.thread_mem t k).mpr hw
  unfold cancelSems leaveLists
  rw [hw]
  refine (cleanupAfterSem_spec h.queues (w := .thread t) rfl (List.nodup_singleton k)
    (by simpa using hmem) hn).bind ?_
  rintro s1 ⟨h1, hr⟩
  have hq := h.erase_eq_without (t := t) (w := .thread t) rfl (by simpa using hmem)
    fun j w hwj ho => List.mem_singleton.mpr (h.owned_sem hw hwj ho).2
  rw [hq] at h1
  have hl : SemsLeft s (s1.setThr t fun th =>
      { th with waitingSemOrClot := none, nextWaitingSem := none }) t :=
    hr.semsLeft (Or.inl rfl)
  refine ⟨h.left hl (h1.setThr _ fun k' hk' => ?_) (fun c cl hc _ => hr.clot_some hc)
    fun c cl hc ht => ?_, hl⟩
  · exact (mem_without.mp hk').2 rfl
  · have := (h.clot_ok c cl hc).1
    rw [ht, hw] at this
    simp at this

theorem Waits.cancel_clot (h : Waits s q) (hn : ∀ k, (q k).length ≤ n) (fuel : Nat) {c : Nat}
    (hw : (s.thr t).waitingSemOrClot = some (.clot c)) :
    Ends (cancelSems fuel s t)
      (fun s' => Waits s' (fun k => without s t (q k)) ∧ SemsLeft s s' t)
      (fun e => e = .outOfFuel ∧ fuel ≤ n) := by
  obtain ⟨cl, hc, hthr⟩ := h.clot_live t c hw
  obtain ⟨-, hnd, -, hlen⟩ := h.clot_ok c cl hc
  have hoc : ownerOf s (.clot c) = t := by simpa [ownerOf, hc] using hthr
  have hmem : ∀ k ∈ cl.sems, .clot c ∈ q k := fun k hk => (h.clot_mem c k).mpr ⟨cl, hc, hk⟩
  unfold cancelSems leaveLists
  rw [hw]
  simp only [getClot, hc]
  refine Ends.bind (P := fun s2 => ∃ s1, s2 = s1.setClot c none ∧
    Queues s1 (fun k => without s t (q k)) ∧ Requeued s s1) ?_ ?_
  · refine Ends.bind (x := cleanupAfterSem fuel s t cl.sems)
      (cleanupAfterSem_spec h.queues hoc hnd hmem hn) ?_
    rintro s1 ⟨h1, hr⟩
    refine ⟨s1, rfl, ?_, hr⟩
    rw [← h.erase_eq_without hoc hmem fun j w hwj ho => (h.owned_clot hw hc hwj ho).2]
    exact h1
  · rintro _ ⟨s1, rfl, h1, hr⟩
    have hl : SemsLeft s ((s1.setClot c none).setThr t fun th =>
        { th with waitingSemOrClot := none, nextWaitingSem := none }) t :=
      hr.semsLeft (Or.inr ⟨c, rfl⟩)
    have hgone : ∀ w, ownerOf s w = t → ∀ k, w ∉ without s t (q k) :=
      fun w ho k hk => (mem_without.mp hk).2 ho
    refine ⟨h.left hl ((h1.setClot none (hgone _ hoc)).setThr _ (hgone _ rfl)) ?_ ?_, hl⟩
    · intro c' cl' hc' ht
      have hcc : c' ≠ c := by
        rintro rfl
        rw [hc] at hc'
        obtain rfl := Option.some.inj hc'
        exact ht hthr
      obtain ⟨nexts, h2, h3⟩ := hr.clot_some hc'
      exact ⟨nexts, by simpa [hcc] using h2, h3⟩
    · intro c' cl' hc' ht
      have hcl := (h.clot_ok c' cl' hc').1
      rw [ht, hw] at hcl
      obtain rfl : c = c' := by simpa using hcl
      simp

end Cancel

theorem cancelSems_spec {s : Kernel} {q : Nat → List WaitObj} {t n : Nat} (h : Waits s q)
    (hwait : (s.thr t).waitingSemOrClot ≠ none) (hn : ∀ k, (q k).length ≤ n) (fuel : Nat) :
    Ends (cancelSems fuel s t)
      (fun s' => Waits s' (fun k => without s t (q k)) ∧ SemsLeft s s' t)
      (fun e => e = .outOfFuel ∧ fuel ≤ n) := by
  cases hw : (s.thr t).waitingSemOrClot with
  | none => exact absurd hw hwait
  | some on =>
    cases on with
    | sem k => exact h.cancel_sem hn fuel hw
    | clot c => exact h.cancel_clot hn fuel hw

end Nolrem.Sync
