import Nolrem.Sync.Wake

/-!
# Taking and giving back units

`AcquireSemFromMany` takes a unit or blocks the thread on every semaphore of its array;
`ReleaseSem` hands the unit to the first waiter, or counts it as free.
-/

namespace Nolrem.Sync

open Nolrem.Lib

/-! ## Counting -/

/-- A list does not depend on the counts. -/
theorem InvAt.counted {s : Kernel} {q : Nat → List WaitObj} {tl : List Nat} {n k : Nat} {d : Int}
    (h : InvAt s q tl n) :
    InvAt (s.setSem k fun sem => { sem with count := sem.count + d }) q tl n := by
  have hsem : ∀ j, ((s.setSem k fun sem => { sem with count := sem.count + d }).sem j) =
      { s.sem j with count := if j = k then (s.sem j).count + d else (s.sem j).count } := by
    intro j
    by_cases hj : j = k
    · subst hj
      simp
    · simp [hj]
  refine ⟨⟨⟨fun j => ?_, fun j => ?_, fun j w hw => ?_, h.waits.queues.bare,
    fun j w w' hw hw' ho => ?_⟩, h.waits.thread_mem, h.waits.clot_mem, h.waits.clot_ok,
    h.waits.clot_live⟩, ⟨h.timed.chain, h.timed.mem⟩, h.asleep, h.init, h.bound, h.boundTimer⟩
  · rw [nextIn_setSem, hsem]
    exact h.waits.queues.chain j
  · rw [hsem]
    exact h.waits.queues.last j
  · have := h.waits.queues.linkable j w hw
    cases w <;> exact this
  · refine h.waits.queues.owners j w w' hw hw' ?_
    cases w <;> cases w' <;> exact ho

/-! ## Joining the waiting lists -/

/-- `s'` is `s` but for the waiting lists and the new clot; `t` waits on `on`. -/
structure SemsJoined (s s' : Kernel) (t : Nat) (on : WaitOn) : Prop where
  thr : ∀ u, ∃ next, s'.thr u =
    { s.thr u with
      nextWaitingSem := next
      waitingSemOrClot := if u = t then some on else (s.thr u).waitingSemOrClot }
  sem : ∀ k, (s'.sem k).count = (s.sem k).count ∧ (s'.sem k).max = (s.sem k).max
  clot : ∀ c, on ≠ .clot c → s'.clot c = none ∧ s.clot c = none ∨ ∃ cl nexts,
    s.clot c = some cl ∧ s'.clot c = some { cl with nexts := nexts } ∧
    nexts.length = cl.nexts.length
  schedInit : s'.schedInit = s.schedInit
  firstWaitingTimer : s'.firstWaitingTimer = s.firstWaitingTimer

/-- The object that `t` puts on the lists. -/
def joinObj (t : Nat) : WaitOn → WaitObj
  | .sem _ => .thread t
  | .clot c => .clot c

section SemsJoined

variable {s s' : Kernel} {q : Nat → List WaitObj} {t : Nat} {on : WaitOn}

theorem SemsJoined.self (hj : SemsJoined s s' t on) :
    (s'.thr t).waitingSemOrClot = some on := by
  obtain ⟨n, hn⟩ := hj.thr t
  simp [hn]

theorem SemsJoined.other (hj : SemsJoined s s' t on) {u : Nat} (hu : u ≠ t) :
    (s'.thr u).waitingSemOrClot = (s.thr u).waitingSemOrClot := by
  obtain ⟨n, hn⟩ := hj.thr u
  simp [hn, hu]

/-- A clot that was there has only its successors changed. -/
theorem SemsJoined.keep (hj : SemsJoined s s' t on) (hnew : ∀ c, on = .clot c → s.clot c = none)
    {c : Nat} {cl : WaitClot} (hc : s.clot c = some cl) : ∃ nexts,
      s'.clot c = some { cl with nexts := nexts } ∧ nexts.length = cl.nexts.length := by
  have hon : on ≠ .clot c := by
    intro hon
    rw [hnew c hon] at hc
    simp at hc
  rcases hj.clot c hon with ⟨-, h1⟩ | ⟨cl', nexts, h1, h2, h3⟩
  · rw [hc] at h1
    simp at h1
  · rw [hc] at h1
    obtain rfl := Option.some.inj h1
    exact ⟨nexts, h2, h3⟩

/-- A clot that is there was there, unless it is the new one. -/
theorem SemsJoined.back (hj : SemsJoined s s' t on) {c : Nat} {cl' : WaitClot}
    (hc : s'.clot c = some cl') (hon : on ≠ .clot c) : ∃ cl nexts, s.clot c = some cl ∧
      cl' = { cl with nexts := nexts } ∧ nexts.length = cl.nexts.length := by
  rcases hj.clot c hon with ⟨h1, -⟩ | ⟨cl, nexts, h1, h2, h3⟩
  · rw [hc] at h1
    simp at h1
  · rw [hc] at h2
    exact ⟨cl, nexts, h1, Option.some.inj h2, h3⟩

theorem SemsJoined.waitsOn_eq (hj : SemsJoined s s' t on) (h : Waits s q)
    (hnew : ∀ c, on = .clot c → s.clot c = none) {u : Nat} (hu : u ≠ t) :
    waitsOn s' u = waitsOn s u := by
  unfold waitsOn
  rw [hj.other hu]
  cases hon : (s.thr u).waitingSemOrClot with
  | none => rfl
  | some on' =>
    cases on' with
    | sem k => rfl
    | clot c =>
      obtain ⟨cl, h1, -⟩ := h.clot_live u c hon
      obtain ⟨nexts, h3, -⟩ := hj.keep hnew h1
      simp [h1, h3]

theorem SemsJoined.ownerOf_eq (hj : SemsJoined s s' t on) (h : Waits s q)
    (hnew : ∀ c, on = .clot c → s.clot c = none) {k : Nat} {w : WaitObj} (hw : w ∈ q k) :
    ownerOf s' w = ownerOf s w := by
  cases w with
  | thread u => rfl
  | clot c =>
    obtain ⟨cl, hc, -⟩ := (h.clot_mem c k).mp hw
    obtain ⟨nexts, h1, -⟩ := hj.keep hnew hc
    simp [ownerOf, hc, h1]

end SemsJoined

/-- The lists and the threads agree when `t` has joined the lists of `sems`. -/
theorem Waits.joined {s s' : Kernel} {q : Nat → List WaitObj} {t : Nat} {on : WaitOn}
    (sems : List Nat) (h : Waits s q) (hwait : (s.thr t).waitingSemOrClot = none)
    (hj : SemsJoined s s' t on)
    (hq : Queues s' fun k => if k ∈ sems then q k ++ [joinObj t on] else q k)
    (hsem : ∀ k, on = .sem k → sems = [k])
    (hclot : ∀ c, on = .clot c → s.clot c = none ∧ sems.Nodup ∧ sems ≠ [] ∧
      ∃ nexts, s'.clot c = some { thr := t, sems, nexts } ∧ nexts.length = sems.length) :
    Waits s' (fun k => if k ∈ sems then q k ++ [joinObj t on] else q k) ∧
      waitsOn s' t = sems ∧ (∀ u, u ≠ t → waitsOn s' u = waitsOn s u) ∧
      ∀ k, ∀ w ∈ q k, ownerOf s' w = ownerOf s w := by
  have hnew : ∀ c, on = .clot c → s.clot c = none := fun c hon => (hclot c hon).1
  have hmem : ∀ k w, w ∈ (if k ∈ sems then q k ++ [joinObj t on] else q k) ↔
      w ∈ q k ∨ k ∈ sems ∧ w = joinObj t on := by
    intro k w
    by_cases hk : k ∈ sems <;> simp [hk]
  have hthr : ∀ c cl, s.clot c = some cl → cl.thr ≠ t := by
    rintro c cl hc rfl
    rw [(h.clot_ok c cl hc).1] at hwait
    simp at hwait
  refine ⟨⟨hq, fun u k => ?_, fun c k => ?_, fun c cl' hc => ?_, fun u c hc => ?_⟩, ?_,
    fun u => hj.waitsOn_eq h hnew, fun k w => hj.ownerOf_eq h hnew⟩
  · rw [hmem, h.thread_mem]
    by_cases hu : u = t
    · subst hu
      rw [hj.self, hwait]
      cases on with
      | sem j =>
        obtain rfl := hsem j rfl
        simp [joinObj, eq_comm]
      | clot c => simp [joinObj]
    · rw [hj.other hu]
      cases on <;> simp [joinObj, hu]
  · rw [hmem, h.clot_mem]
    by_cases hon : on = .clot c
    · obtain ⟨h1, -, -, nexts, h2, -⟩ := hclot c hon
      subst hon
      simp [h1, h2, joinObj]
    · constructor
      · rintro (⟨cl, hc, hk⟩ | ⟨-, hw⟩)
        · obtain ⟨nexts, h1, -⟩ := hj.keep hnew hc
          exact ⟨_, h1, hk⟩
        · cases on with
          | sem j => simp [joinObj] at hw
          | clot c' => exact absurd (by simpa [joinObj, eq_comm] using hw) hon
      · rintro ⟨cl', hc, hk⟩
        obtain ⟨cl, nexts, h1, rfl, -⟩ := hj.back hc hon
        exact Or.inl ⟨cl, h1, hk⟩
  · by_cases hon : on = .clot c
    · obtain ⟨-, h1, h2, nexts, h3, h4⟩ := hclot c hon
      rw [hc] at h3
      obtain rfl := Option.some.inj h3
      exact ⟨by rw [hj.self, hon], h1, h2, h4⟩
    · obtain ⟨cl, nexts, h1, rfl, h2⟩ := hj.back hc hon
      obtain ⟨h3, h4, h5, h6⟩ := h.clot_ok c cl h1
      exact ⟨by rw [hj.other (hthr c cl h1), h3], h4, h5, h2.trans h6⟩
  · by_cases hu : u = t
    · subst hu
      rw [hj.self] at hc
      obtain rfl := Option.some.inj hc
      obtain ⟨-, -, -, nexts, h3, -⟩ := hclot c rfl
      exact ⟨_, h3, rfl⟩
    · rw [hj.other hu] at hc
      obtain ⟨cl, h1, h2⟩ := h.clot_live u c hc
      obtain ⟨nexts, h3, -⟩ := hj.keep hnew h1
      exact ⟨_, h3, h2⟩
  · unfold waitsOn
    rw [hj.self]
    cases on with
    | sem k => simp [hsem k rfl]
    | clot c =>
      obtain ⟨-, -, -, nexts, h3, -⟩ := hclot c rfl
      simp [h3]

/-- What `AddThreadToSemQueues` leaves when it returns 0. -/
def Joined (s : Kernel) (q : Nat → List WaitObj) (t : Nat) (sems : List Nat) (s' : Kernel) :
    Prop :=
  ∃ on, SemsJoined s s' t on ∧
    Waits s' (fun k => if k ∈ sems then q k ++ [joinObj t on] else q k) ∧
    ownerOf s' (joinObj t on) = t ∧ waitsOn s' t = sems ∧
    (∀ u, u ≠ t → waitsOn s' u = waitsOn s u) ∧ ∀ k, ∀ w ∈ q k, ownerOf s' w = ownerOf s w

section Join

variable {s : Kernel} {q : Nat → List WaitObj} {t : Nat}

/-- A thread that waits for nothing is on no list, and owns nothing that is on one. -/
theorem Waits.not_queued (h : Waits s q) (hwait : (s.thr t).waitingSemOrClot = none) (k : Nat) :
    WaitObj.thread t ∉ q k := by
  intro hk
  have := (h.thread_mem t k).mp hk
  rw [hwait] at this
  simp at this

theorem Waits.ownerOf_ne (h : Waits s q) (hwait : (s.thr t).waitingSemOrClot = none) {k : Nat}
    {w : WaitObj} (hw : w ∈ q k) : ownerOf s w ≠ t := by
  intro ho
  have := (h.mem_waitsOn hw).2
  rw [ho] at this
  exact this hwait

/-- A thread waits for one semaphore. -/
theorem Waits.join_sem (h : Waits s q) (hwait : (s.thr t).waitingSemOrClot = none) (k : Nat) :
    ∃ s', enqueueAll (s.setThr t fun th =>
        { th with nextWaitingSem := none, waitingSemOrClot := some (.sem k) }) (.thread t) [k] =
          .ok s' ∧ Joined s q t [k] s' := by
  have hthread := h.not_queued hwait
  have hq0 := h.queues.setThr (t := t) (fun th =>
    { th with nextWaitingSem := none, waitingSemOrClot := some (.sem k) }) hthread
  have ho0 : ownerOf (s.setThr t fun th =>
      { th with nextWaitingSem := none, waitingSemOrClot := some (.sem k) }) = ownerOf s := by
    funext w
    cases w <;> rfl
  obtain ⟨s1, hs1, hq1, hr⟩ := enqueueAll_spec (w := .thread t) [k] hq0 (List.nodup_singleton k)
    (fun j _ => hthread j) (fun _ _ => trivial) (fun _ _ => by simp [nextIn])
    (fun _ _ => ⟨by simp, fun _ => hthread⟩)
    (fun j _ w hw => by rw [ho0]; exact h.ownerOf_ne hwait hw)
  have hj : SemsJoined s s1 t (.sem k) := by
    refine ⟨fun u => ?_, hr.sem, fun c _ => hr.clot c, hr.schedInit, hr.firstWaitingTimer⟩
    obtain ⟨n, hn⟩ := hr.thr u
    by_cases hu : u = t
    · subst hu
      exact ⟨n, by simp [hn]⟩
    · exact ⟨n, by simp [hn, hu]⟩
  obtain ⟨h1, h2, h3⟩ := h.joined [k] hwait hj hq1 (by simp) (by simp)
  exact ⟨s1, hs1, .sem k, hj, h1, rfl, h2, h3⟩

/-- A thread waits for several semaphores, with a clot of its own. -/
theorem Waits.join_clot (h : Waits s q) (hwait : (s.thr t).waitingSemOrClot = none) {c : Nat}
    (hc : s.clot c = none) {sems : List Nat} (hne : sems ≠ []) (hnd : sems.Nodup) :
    ∃ s', enqueueAll ((s.setClot c (some
        { thr := t, sems := sems, nexts := sems.map fun _ => none })).setThr t fun th =>
        { th with nextWaitingSem := none, waitingSemOrClot := some (.clot c) }) (.clot c) sems =
          .ok s' ∧ Joined s q t sems s' := by
  have hclot : ∀ j, WaitObj.clot c ∉ q j := by
    intro j hj
    obtain ⟨cl, h1, -⟩ := (h.clot_mem c j).mp hj
    rw [hc] at h1
    simp at h1
  generalize hs0 : (s.setClot c (some
    { thr := t, sems := sems, nexts := sems.map fun _ => none })).setThr t (fun th =>
    { th with nextWaitingSem := none, waitingSemOrClot := some (.clot c) }) = s0
  have hq0 : Queues s0 q := by
    rw [← hs0]
    exact (h.queues.setClot _ hclot).setThr _ (h.not_queued hwait)
  have hc0 : s0.clot c =
      some { thr := t, sems := sems, nexts := sems.map fun _ => none } := by
    rw [← hs0]
    simp
  have hoc : ownerOf s0 (.clot c) = t := by simp [ownerOf, hc0]
  have ho0 : ∀ j, ∀ w ∈ q j, ownerOf s0 w = ownerOf s w := by
    intro j w hw
    cases w with
    | thread u => rfl
    | clot c' =>
      have hcc : c' ≠ c := by
        rintro rfl
        exact hclot j hw
      simp [ownerOf, ← hs0, hcc]
  obtain ⟨s1, hs1, hq1, hr⟩ := enqueueAll_spec (w := .clot c) sems hq0 hnd
    (fun j _ => hclot j)
    (fun j hj => by
      obtain ⟨i, hi, hlt⟩ := lookupClotIndex_of_mem hj
      exact ⟨_, i, hc0, hi, by simpa using hlt⟩)
    (fun j hj => by
      obtain ⟨i, hi, hlt⟩ := lookupClotIndex_of_mem hj
      simp [nextIn, hc0, hi, hlt])
    (by simp)
    (fun j _ w hw => by rw [ho0 j w hw, hoc]; exact h.ownerOf_ne hwait hw)
  have hj : SemsJoined s s1 t (.clot c) := by
    refine ⟨fun u => ?_, fun j => ?_, fun c' hcc => ?_, ?_, ?_⟩
    · obtain ⟨n, hn⟩ := hr.thr u
      by_cases hu : u = t
      · subst hu
        exact ⟨n, by simp [hn, ← hs0]⟩
      · exact ⟨n, by simp [hn, ← hs0, hu]⟩
    · have := hr.sem j
      rw [← hs0] at this
      exact this
    · have hne' : c' ≠ c := by
        rintro rfl
        exact hcc rfl
      have := hr.clot c'
      rw [← hs0] at this
      simpa [hne'] using this
    · rw [hr.schedInit, ← hs0]
      rfl
    · rw [hr.firstWaitingTimer, ← hs0]
      rfl
  obtain ⟨nexts, hc1, hlen⟩ := hr.clot_some hc0
  obtain ⟨h1, h2, h3⟩ := h.joined sems hwait hj hq1 (by simp) (by
    rintro c' hcc
    obtain rfl : c = c' := by simpa using hcc
    exact ⟨hc, hnd, hne, nexts, hc1, by simpa using hlen⟩)
  exact ⟨s1, hs1, .clot c, hj, h1, by simp [joinObj, ownerOf, hc1], h2, h3⟩

end Join

theorem addThreadToSemQueues_spec {s : Kernel} {q : Nat → List WaitObj} {t : Nat}
    {sems : List Nat} {alloc : Option Nat} (h : Waits s q)
    (hwait : (s.thr t).waitingSemOrClot = none) (hsems : sems ≠ [])
    (hnd : (1 < sems.length → alloc ≠ none) → sems.Nodup)
    (hfresh : ∀ c, alloc = some c → s.clot c = none) :
    (∃ s', addThreadToSemQueues s t sems alloc = .ok (s', 0) ∧ Joined s q t sems s') ∨
      addThreadToSemQueues s t sems alloc = .ok (s, eNoMem) := by
  match sems, hsems, hnd with
  | [k], _, hnd =>
    obtain ⟨s1, hs1, hjoined⟩ := h.join_sem hwait k
    refine Or.inl ⟨s1, ?_, hjoined⟩
    show (enqueueAll _ (.thread t) [k] >>= fun s => .ok (s, 0)) = _
    rw [hs1]
    rfl
  | k :: k' :: ks, hne, hnd =>
    cases alloc with
    | none => exact Or.inr rfl
    | some c =>
      obtain ⟨s1, hs1, hjoined⟩ := h.join_clot hwait (hfresh c rfl) hne (hnd (by simp))
      refine Or.inl ⟨s1, ?_, hjoined⟩
      show (enqueueAll _ (.clot c) (k :: k' :: ks) >>= fun s => .ok (s, 0)) = _
      rw [hs1]
      rfl

/-! ## Going to sleep -/

/-- From `s` to `s'` only `t` has changed, apart from the links of the lists. -/
structure OnlyThread (s s' : Kernel) (t : Nat) : Prop where
  thr : ∀ u, u ≠ t → (s'.thr u).blocked = (s.thr u).blocked ∧
    (s'.thr u).blockReturnVal = (s.thr u).blockReturnVal
  sem : ∀ k, (s'.sem k).count = (s.sem k).count ∧ (s'.sem k).max = (s.sem k).max
  waitsOn : ∀ u, u ≠ t → waitsOn s' u = waitsOn s u

theorem OnlyThread.refl (s : Kernel) (t : Nat) : OnlyThread s s t :=
  ⟨fun _ _ => ⟨rfl, rfl⟩, fun _ => ⟨rfl, rfl⟩, fun _ _ => rfl⟩

theorem OnlyThread.trans {s s' s'' : Kernel} {t : Nat} (h : OnlyThread s s' t)
    (h' : OnlyThread s' s'' t) : OnlyThread s s'' t :=
  ⟨fun u hu => ⟨(h'.thr u hu).1.trans (h.thr u hu).1, (h'.thr u hu).2.trans (h.thr u hu).2⟩,
    fun k => ⟨(h'.sem k).1.trans (h.sem k).1, (h'.sem k).2.trans (h.sem k).2⟩,
    fun u hu => (h'.waitsOn u hu).trans (h.waitsOn u hu)⟩

theorem waitsOn_congr {s s' : Kernel} {t : Nat}
    (h : (s'.thr t).waitingSemOrClot = (s.thr t).waitingSemOrClot) (hc : s'.clot = s.clot) :
    waitsOn s' t = waitsOn s t := by
  unfold waitsOn
  rw [h, hc]

/-- The current thread goes to sleep on the timer list. -/
structure Slept (s s' : Kernel) (t : Nat) : Prop where
  only : OnlyThread s s' t
  clot : s'.clot = s.clot
  wait : (s'.thr t).waitingSemOrClot = (s.thr t).waitingSemOrClot

theorem addThreadToSleepQueue_spec {s : Kernel} {q : Nat → List WaitObj} {tl : List Nat}
    {t n : Nat} (h : InvAt s q tl n) (ht : (s.thr t).blocked = false) (relative : Bool)
    (ns fuel : Nat) :
    Ends (addThreadToSleepQueue fuel s t relative ns)
      (fun res => res.2 = false ∧ res.1 = s ∨
        res.2 = true ∧ Slept s res.1 t ∧ (res.1.thr t).blocked = true ∧
        s.nsSinceBoot < (if relative then (ns + s.nsSinceBoot) % 18446744073709551616 else ns) ∧
        ∃ tl', InvAt res.1 q tl' (n + 1))
      (fun e => e = .outOfFuel ∧ fuel ≤ n) := by
  have htl : t ∉ tl := by
    intro htl
    have := h.asleep t (Or.inr ((h.timed.mem t).mp htl))
    rw [ht] at this
    simp at this
  unfold addThreadToSleepQueue
  simp only
  generalize (if relative = true then (ns + s.nsSinceBoot) % 18446744073709551616 else ns) = ns'
  split
  · exact Or.inl ⟨rfl, rfl⟩
  · next hpast =>
    generalize hs1 : ({ s with
      nextWakeupNs := if s.nextWakeupNs = 0 ∨ ns' < s.nextWakeupNs then ns'
        else s.nextWakeupNs } : Kernel).setThr t (fun th => { th with wakeupTimeNs := ns' }) = s1
    have hthr1 : ∀ u, s1.thr u =
        { s.thr u with wakeupTimeNs := if u = t then ns' else (s.thr u).wakeupTimeNs } := by
      intro u
      rw [← hs1]
      by_cases hu : u = t
      · subst hu
        simp
      · simp [hu]
    have hrest : s1.sem = s.sem ∧ s1.clot = s.clot ∧ s1.schedInit = s.schedInit ∧
        s1.nsSinceBoot = s.nsSinceBoot ∧ s1.firstWaitingTimer = s.firstWaitingTimer := by
      rw [← hs1]
      exact ⟨rfl, rfl, rfl, rfl, rfl⟩
    obtain ⟨hsem1, hclot1, hinit1, hboot1, hfirst1⟩ := hrest
    have hchain1 : Chain (fun u => (s1.thr u).nextWaitingTimer) s1.firstWaitingTimer tl := by
      rw [hfirst1]
      exact h.timed.chain.congr fun u _ => by rw [hthr1]
    refine ((insertTimer_spec hchain1 htl fuel).mono (fun _ h => h)
      fun e he => ⟨he.1, Nat.le_trans he.2 h.boundTimer⟩).bind ?_
    rintro s2 ⟨⟨tl', hchain2, hperm⟩, hr2⟩
    have hr : Retimed s s2 t ns' := by
      refine ⟨fun u => ?_, hr2.sem.trans hsem1, hr2.clot.trans hclot1,
        hr2.schedInit.trans hinit1, hr2.nsSinceBoot.trans hboot1⟩
      obtain ⟨n2, hn2⟩ := hr2.thr u
      refine ⟨n2, ?_⟩
      rw [hn2, hthr1 u, hthr1 t]
      by_cases hu : u = t <;> simp [hu]
    have htimed2 : Timed s2 tl' := by
      refine ⟨hchain2, fun u => ?_⟩
      obtain ⟨n2, hn2⟩ := hr.thr u
      rw [hperm.mem_iff, List.mem_cons, hn2, h.timed.mem]
      by_cases hu : u = t
      · simp only [hu, true_or, if_true, true_iff]
        omega
      · simp [hu]
    have hblock : ∀ u, ∃ next, (blockThread s2 t).thr u =
        { s.thr u with
          nextWaitingTimer := next
          wakeupTimeNs := if u = t then ns' else (s.thr u).wakeupTimeNs
          blocked := if u = t then true else (s.thr u).blocked
          blockReturnVal := if u = t then 0 else (s.thr u).blockReturnVal } := by
      intro u
      obtain ⟨n2, hn2⟩ := hr.thr u
      refine ⟨n2, ?_⟩
      by_cases hu : u = t
      · subst hu
        simp [blockThread, hn2]
      · simp [blockThread, hn2, hu]
    rw [ends_ok]
    have hwait : ∀ u, ((blockThread s2 t).thr u).waitingSemOrClot =
        (s.thr u).waitingSemOrClot := by
      intro u
      obtain ⟨n2, hn2⟩ := hblock u
      rw [hn2]
    refine Or.inr ⟨rfl, ⟨⟨fun u hu => ?_, fun k => ?_, fun u _ => ?_⟩, ?_, hwait t⟩, ?_,
      by omega, tl', (h.waits.retimed hr).setBlocked t true 0, htimed2.setBlocked t true 0,
      fun u hu => ?_, hr.schedInit.trans h.init, fun k => Nat.le_succ_of_le (h.bound k), ?_⟩
    · obtain ⟨n2, hn2⟩ := hblock u
      simp [hn2, hu]
    · show (s2.sem k).count = _ ∧ (s2.sem k).max = _
      rw [hr.sem]
      exact ⟨rfl, rfl⟩
    · exact waitsOn_congr (hwait u) hr.clot
    · exact hr.clot
    · simp [blockThread]
    · obtain ⟨n2, hn2⟩ := hblock u
      rw [hn2] at hu ⊢
      by_cases hut : u = t
      · simp [hut]
      · simp only [hut, if_false] at hu ⊢
        exact h.asleep u hu
    · rw [hperm.length_eq, List.length_cons]
      exact Nat.succ_le_succ h.boundTimer

/-! ## `AcquireSemFromMany` -/

/-- The call gets to put the thread on the waiting lists. -/
def JoinsLists (s : Kernel) (sems : List Nat) (timeout : Int) (alloc : Option Nat) : Prop :=
  firstFree s sems = none ∧ timeout ≠ timeoutInstant ∧
    (timeout = timeoutInfinite ∨ s.nsSinceBoot <
      ((timeout % 18446744073709551616).toNat + s.nsSinceBoot) % 18446744073709551616) ∧
    (1 < sems.length → alloc ≠ none)

instance (s : Kernel) (sems : List Nat) (timeout : Int) (alloc : Option Nat) :
    Decidable (JoinsLists s sems timeout alloc) := inferInstanceAs (Decidable (_ ∧ _))

theorem firstFree_eq_some {s : Kernel} {sems : List Nat} {i : Nat} (h : firstFree s sems = some i) :
    ∃ k, sems[i]? = some k ∧ (s.sem k).count < (s.sem k).max := by
  induction sems generalizing i with
  | nil => simp [firstFree] at h
  | cons a sems ih =>
    unfold firstFree at h
    split at h
    · next ha =>
      obtain rfl := Option.some.inj h
      exact ⟨a, rfl, ha⟩
    · obtain ⟨j, hj, rfl⟩ := Option.map_eq_some_iff.mp h
      obtain ⟨k, hk, hlt⟩ := ih hj
      exact ⟨k, by simpa using hk, hlt⟩

theorem firstFree_eq_none {s : Kernel} {sems : List Nat} (h : firstFree s sems = none) :
    ∀ k ∈ sems, (s.sem k).max ≤ (s.sem k).count := by
  induction sems with
  | nil => simp
  | cons a sems ih =>
    unfold firstFree at h
    split at h
    · simp at h
    · next ha =>
      intro k hk
      rcases List.mem_cons.mp hk with rfl | hk
      · omega
      · exact ih (Option.map_eq_none_iff.mp h) k hk

/-- How a call of `AcquireSemFromMany` that gets no unit at once ends. -/
inductive WaitCase (s : Kernel) (q : Nat → List WaitObj) (t : Nat) (sems : List Nat) (n : Nat)
    (s' : Kernel) : Outcome → Prop
  /-- No waiting: the time is over already. -/
  | again : s' = s → WaitCase s q t sems n s' (.returned eAgain none)
  /-- No memory for the clot; the thread may have been put on the timer list. -/
  | noMem (tl' : List Nat) : InvAt s' q tl' (n + 1) → OnlyThread s s' t → waitsOn s' t = [] →
      (∀ k, ∀ v ∈ q k, ownerOf s' v = ownerOf s v) →
      WaitCase s q t sems n s' (.returned eNoMem none)
  /-- The thread is on the list of each of the semaphores. -/
  | waits (w : WaitObj) (tl' : List Nat) :
      InvAt s' (fun k => if k ∈ sems then q k ++ [w] else q k) tl' (n + 1) →
      OnlyThread s s' t → (s'.thr t).blocked = true → waitsOn s' t = sems → ownerOf s' w = t →
      (∀ k, ∀ v ∈ q k, ownerOf s' v = ownerOf s v) → WaitCase s q t sems n s' .waits

theorem startTimeout_spec {s : Kernel} {q : Nat → List WaitObj} {tl : List Nat} {t n : Nat}
    (h : InvAt s q tl n) (ht : (s.thr t).blocked = false) (timeout : Int) (fuel : Nat) :
    Ends (startTimeout fuel s t timeout)
      (fun res => res.2 = false ∧ res.1 = s ∨
        res.2 = true ∧ Slept s res.1 t ∧ (∃ tl', InvAt res.1 q tl' (n + 1)) ∧
        (timeout ≠ timeoutInstant → timeout = timeoutInfinite ∨ s.nsSinceBoot <
          ((timeout % 18446744073709551616).toNat + s.nsSinceBoot) % 18446744073709551616))
      (fun e => e = .outOfFuel ∧ fuel ≤ n) := by
  unfold startTimeout
  split
  · refine (addThreadToSleepQueue_spec h ht true _ fuel).mono ?_ fun _ h => h
    rintro res (h1 | ⟨h1, h2, -, h4, h5⟩)
    · exact Or.inl h1
    · exact Or.inr ⟨h1, h2, h5, fun _ => Or.inr (by simpa using h4)⟩
  · next hnot =>
    refine Or.inr ⟨rfl, ⟨OnlyThread.refl s t, rfl, rfl⟩, ⟨tl, h.waits, h.timed, h.asleep, h.init,
      fun k => Nat.le_succ_of_le (h.bound k), Nat.le_succ_of_le h.boundTimer⟩, fun hne => ?_⟩
    by_contra hinf
    rw [not_or] at hinf
    exact hnot ⟨hne, hinf.1⟩

theorem InvAt.not_waiting {s : Kernel} {q : Nat → List WaitObj} {tl : List Nat} {t n : Nat}
    (h : InvAt s q tl n) (ht : (s.thr t).blocked = false) :
    (s.thr t).waitingSemOrClot = none := by
  by_contra hne
  have := h.asleep t (Or.inl hne)
  rw [ht] at this
  simp at this

theorem waitForMany_spec {s : Kernel} {q : Nat → List WaitObj} {tl : List Nat} {t n : Nat}
    {sems : List Nat} {timeout : Int} {alloc : Option Nat} (h : InvAt s q tl n)
    (ht : (s.thr t).blocked = false) (hsems : sems ≠ []) (hfree : firstFree s sems = none)
    (hnd : JoinsLists s sems timeout alloc → sems.Nodup)
    (hfresh : ∀ c, alloc = some c → s.clot c = none) (fuel : Nat) :
    Ends (waitForMany fuel s t sems timeout alloc)
      (fun res => WaitCase s q t sems n res.1 res.2) (fun e => e = .outOfFuel ∧ fuel ≤ n) := by
  have hwait := h.not_waiting ht
  unfold waitForMany
  split
  · exact .again rfl
  · next hinstant =>
    refine (startTimeout_spec h ht timeout fuel).bind ?_
    rintro ⟨s1, added⟩ (⟨rfl, rfl⟩ | ⟨rfl, hslept, ⟨tl1, h1⟩, htime⟩)
    · simp only [if_true]
      exact .again rfl
    · have hwait1 : (s1.thr t).waitingSemOrClot = none := by rw [hslept.wait, hwait]
      simp only [Bool.true_eq_false, if_false]
      have hadd := addThreadToSemQueues_spec h1.waits hwait1 hsems
        (fun ha => hnd ⟨hfree, hinstant, htime hinstant, ha⟩)
        (fun c hc => by rw [hslept.clot]; exact hfresh c hc)
      rcases hadd with ⟨s2, hs2, on, hj, hw2, ho, hself, hother, hold⟩ | hno
      · rw [hs2]
        show Ends (.ok (blockThread s2 t, Outcome.waits)) _ _
        rw [ends_ok]
        have hthr : ∀ u, ∃ next, (blockThread s2 t).thr u =
            { s1.thr u with
              nextWaitingSem := next
              waitingSemOrClot := if u = t then some on else (s1.thr u).waitingSemOrClot
              blocked := if u = t then true else (s1.thr u).blocked
              blockReturnVal := if u = t then 0 else (s1.thr u).blockReturnVal } := by
          intro u
          obtain ⟨n2, hn2⟩ := hj.thr u
          refine ⟨n2, ?_⟩
          by_cases hu : u = t
          · subst hu
            simp [blockThread, hn2]
          · simp [blockThread, hn2, hu]
        have htimed2 : Timed s2 tl1 := by
          refine ⟨?_, fun u => ?_⟩
          · rw [hj.firstWaitingTimer]
            refine h1.timed.chain.congr fun u _ => ?_
            obtain ⟨n2, hn2⟩ := hj.thr u
            simp [hn2]
          · obtain ⟨n2, hn2⟩ := hj.thr u
            rw [h1.timed.mem, hn2]
        have hwaits : ∀ u, waitsOn (blockThread s2 t) u = waitsOn s2 u := by
          intro u
          refine waitsOn_congr ?_ rfl
          by_cases hu : u = t <;> simp [blockThread, hu]
        have howner : ownerOf (blockThread s2 t) = ownerOf s2 := by
          funext w
          cases w <;> rfl
        refine .waits (joinObj t on) tl1 ⟨hw2.setBlocked t true 0, htimed2.setBlocked t true 0,
          fun u hu => ?_, hj.schedInit.trans h1.init, fun k => ?_, h1.boundTimer⟩
          (hslept.only.trans ⟨fun u hu => ?_, hj.sem, fun u hu => ?_⟩) ?_ ?_ ?_ ?_
        · obtain ⟨n2, hn2⟩ := hthr u
          rw [hn2] at hu ⊢
          by_cases hut : u = t
          · simp [hut]
          · simp only [hut, if_false] at hu ⊢
            exact h1.asleep u hu
        · have hk := h.bound k
          split
          · simp only [List.length_append, List.length_cons, List.length_nil]
            omega
          · omega
        · obtain ⟨n2, hn2⟩ := hthr u
          simp [hn2, hu]
        · rw [hwaits, hother u hu]
        · obtain ⟨n2, hn2⟩ := hthr t
          simp [hn2]
        · rw [hwaits, hself]
        · rw [howner, ho]
        · intro k v hv
          rw [howner, hold k v hv]
          cases v with
          | thread u => rfl
          | clot c =>
            have hclot : s1.clot = s.clot := hslept.clot
            simp only [ownerOf, hclot]
      · rw [hno]
        show Ends (.ok (s1, Outcome.returned eNoMem none)) _ _
        refine .noMem tl1 h1 hslept.only (by simp [waitsOn, hwait1]) fun k v _ => ?_
        cases v with
        | thread u => rfl
        | clot c =>
          have hclot : s1.clot = s.clot := hslept.clot
          simp only [ownerOf, hclot]

theorem acquireSemFromMany_spec {s : Kernel} {q : Nat → List WaitObj} {tl : List Nat} {t n : Nat}
    {sems : List Nat} {timeout : Int} {alloc : Option Nat} (h : InvAt s q tl n)
    (ht : (s.thr t).blocked = false) (hsems : sems ≠ [])
    (hnd : JoinsLists s sems timeout alloc → sems.Nodup)
    (hfresh : ∀ c, alloc = some c → s.clot c = none) (fuel : Nat) :
    Ends (acquireSemFromMany fuel s t sems timeout alloc)
      (fun res => (∃ i k, res.2 = .returned 0 (some i) ∧ sems[i]? = some k ∧
          (s.sem k).count < (s.sem k).max ∧
          res.1 = s.setSem k fun sem => { sem with count := sem.count + 1 }) ∨
        (∀ k ∈ sems, (s.sem k).max ≤ (s.sem k).count) ∧ WaitCase s q t sems n res.1 res.2)
      (fun e => e = .outOfFuel ∧ fuel ≤ n) := by
  unfold acquireSemFromMany
  rw [h.init, if_neg (by simp)]
  split
  · next i hi =>
    obtain ⟨k, hk, hlt⟩ := firstFree_eq_some hi
    rw [hk]
    exact Or.inl ⟨i, k, rfl, hk, hlt, rfl⟩
  · next hnone =>
    exact (waitForMany_spec h ht hsems hnone hnd hfresh fuel).mono
      (fun _ hres => Or.inr ⟨firstFree_eq_none hnone, hres⟩) fun _ h => h

/-! ## `ReleaseSem` -/

/-- How a call of `ReleaseSem` ends. -/
inductive ReleaseCase (s : Kernel) (q : Nat → List WaitObj) (tl : List Nat) (n k : Nat)
    (s' : Kernel) : Prop
  /-- The unit goes to the first waiter, whose call returns the place of `k` in its array. -/
  | handed (w : WaitObj) (l : List WaitObj) : q k = w :: l → (s.sem k).count = (s.sem k).max →
      InvAt s' (fun j => without s (ownerOf s w) (q j)) (tl.erase (ownerOf s w)) n →
      Woke (fun u r => u = ownerOf s w ∧ ∃ i : Nat, r = -(i : Int) ∧
        (waitsOn s (ownerOf s w))[i]? = some k) s q s' (fun j => without s (ownerOf s w) (q j)) →
      (s'.thr (ownerOf s w)).blocked = false →
      (∀ u, u ≠ ownerOf s w → (s'.thr u).blocked = (s.thr u).blocked) →
      ReleaseCase s q tl n k s'
  /-- No thread waits, and the unit is free. -/
  | counted : (q k = [] ∨ (s.sem k).count ≠ (s.sem k).max) →
      s' = s.setSem k (fun sem => { sem with count := sem.count - 1 }) →
      ReleaseCase s q tl n k s'

theorem releaseSem_spec {s : Kernel} {q : Nat → List WaitObj} {tl : List Nat} {n : Nat}
    (h : InvAt s q tl n) (k fuel : Nat) :
    Ends (releaseSem fuel s k) (ReleaseCase s q tl n k)
      (fun e => e = .outOfFuel ∧ fuel ≤ n) := by
  have hchain := h.waits.queues.chain k
  unfold releaseSem
  rw [h.init, if_neg (by simp)]
  split
  · next hfull =>
    split
    · next hstart => exact .counted (Or.inl (hchain.start_eq_none_iff.mp hstart)) rfl
    · next t hstart =>
      obtain ⟨l, hq⟩ : ∃ l, q k = .thread t :: l := by
        have := hchain.head_eq
        rw [hstart] at this
        exact List.head?_eq_some_iff.mp this.symm
      have hmem : .thread t ∈ q k := by simp [hq]
      have hon := (h.waits.thread_mem t k).mp hmem
      refine (unblockThread_spec h (h.owner_blocked hmem) 0 fuel).mono ?_ fun _ h => h
      rintro s' ⟨h1, h2, h3, -, h5⟩
      exact .handed (.thread t) l hq hfull h1
        (h2.mono fun u r hur => ⟨hur.1, 0, by simp [hur.2], by simp [waitsOn, ownerOf, hon]⟩) h3 h5
    · next c hstart =>
      obtain ⟨l, hq⟩ : ∃ l, q k = .clot c :: l := by
        have := hchain.head_eq
        rw [hstart] at this
        exact List.head?_eq_some_iff.mp this.symm
      have hmem : .clot c ∈ q k := by simp [hq]
      obtain ⟨cl, hc, hk⟩ := (h.waits.clot_mem c k).mp hmem
      obtain ⟨i, hi, -⟩ := lookupClotIndex_of_mem hk
      have ho : ownerOf s (.clot c) = cl.thr := by simp [ownerOf, hc]
      have hon := (h.waits.clot_ok c cl hc).1
      simp only [getClot, hc]
      show Ends (unblockThread fuel s cl.thr (clotRetv cl k)) _ _
      rw [← ho]
      refine (unblockThread_spec h (h.owner_blocked hmem) _ fuel).mono ?_ fun _ h => h
      rintro s' ⟨h1, h2, h3, -, h5⟩
      have hretv : clotRetv cl k = -(i : Int) := by simp only [clotRetv, hi]
      refine .handed (.clot c) l hq hfull h1
        (h2.mono fun u r hur => ⟨hur.1, i, hur.2.trans hretv, ?_⟩) h3 h5
      simp only [ho, waitsOn, hon, hc]
      exact lookupClotIndex_eq_some hi
  · next hfull => exact .counted (Or.inr hfull) rfl

end Nolrem.Sync
