import Nolrem.Task.ReadyList

/-!
# The places of threads

`Placed s c l p out` says where each thread is: `c` is the current thread, `l` the ready
list and `p` the thread a switch has been postponed to. The threads in `out` are in the
hands of the function that runs. Each step of the scheduler moves one thread from one
place to another.
-/

namespace Nolrem.Task

open Nolrem.Lib

structure Placed (s : Sched) (c : Nat) (l : List Nat) (p : Option Nat) (out : Nat → Prop) :
    Prop where
  init : s.schedInit = true
  current : s.currentThread = some c
  currentLive : s.live c = true
  currentRuns : canThreadRunOnThisCpu s c = true
  linked : Linked s l
  listed : ∀ t ∈ l, s.live t = true ∧ (s.thr t).state = .ready
  held : ∀ t, p = some t → s.live t = true ∧ (s.thr t).state = .ready ∧ t ∉ l ∧ t ≠ c ∧
    canThreadRunOnThisCpu s t = true ∧ (s.thr c).idling = false
  running : (s.thr c).state = .running → (s.thr c).idling = false
  woken : ¬ out c → (s.thr c).state = .ready → (c ∈ l ↔ (s.thr c).idling = false)
  others : ∀ t, s.live t = true → t ≠ c → ¬ out t →
    (s.thr t).state = .blocked ∨ (s.thr t).state = .ready ∧ (t ∈ l ∨ p = some t)
  idling : ∀ t, s.live t = true → (s.thr t).idling = true → t = c

/-- No thread is in the hands of a function. -/
abbrev noThread : Nat → Prop := fun _ => False

/-- The places in `s'` are those in `s`. -/
structure SamePlaces (s s' : Sched) : Prop where
  thr : ∀ t, (s'.thr t).state = (s.thr t).state ∧ (s'.thr t).idling = (s.thr t).idling ∧
    (s'.thr t).nextReady = (s.thr t).nextReady ∧
    (s'.thr t).affinityBitmask = (s.thr t).affinityBitmask
  live : s'.live = s.live
  cpuNum : s'.cpuNum = s.cpuNum
  readyListHead : s'.readyListHead = s.readyListHead
  readyListTail : s'.readyListTail = s.readyListTail
  currentThread : s'.currentThread = s.currentThread
  schedInit : s'.schedInit = s.schedInit

/-- No thread stops being awake. -/
def Wakeful (s s' : Sched) : Prop :=
  ∀ t, (s.thr t).state ≠ .blocked → (s'.thr t).state ≠ .blocked

theorem Wakeful.refl (s : Sched) : Wakeful s s := fun _ h => h

theorem Wakeful.trans {a b c : Sched} (h : Wakeful a b) (h' : Wakeful b c) : Wakeful a c :=
  fun t ht => h' t (h t ht)

theorem SamePlaces.wakeful {s s' : Sched} (h : SamePlaces s s') : Wakeful s s' := by
  intro t ht
  rwa [(h.thr t).1]

namespace Placed

variable {s s' : Sched} {c t : Nat} {l : List Nat} {p : Option Nat} {out : Nat → Prop}

theorem current_not_mem (h : Placed s c l p out) (hc : (s.thr c).state ≠ .ready) : c ∉ l :=
  fun hm => hc (h.listed c hm).2

theorem mono {o : Nat → Prop} (h : Placed s c l p out) (hout : ∀ u, out u → o u) :
    Placed s c l p o :=
  { h with
    woken := fun hc => h.woken fun h' => hc (hout _ h')
    others := fun t ht htc ho => h.others t ht htc fun h' => ho (hout _ h') }

/-- Changes to the CPU, the counters and the other fields of a thread move no thread. -/
theorem frame (h : Placed s c l p out) (hs : SamePlaces s s') : Placed s' c l p out := by
  have hcan : ∀ t, canThreadRunOnThisCpu s' t = canThreadRunOnThisCpu s t := by
    intro t
    unfold canThreadRunOnThisCpu
    rw [hs.cpuNum, (hs.thr t).2.2.2]
  have hnext : (fun t => (s'.thr t).nextReady) = fun t => (s.thr t).nextReady :=
    funext fun t => (hs.thr t).2.2.1
  have hst := fun t => (hs.thr t).1
  have hid := fun t => (hs.thr t).2.1
  constructor
  · rw [hs.schedInit, h.init]
  · rw [hs.currentThread, h.current]
  · rw [hs.live, h.currentLive]
  · rw [hcan, h.currentRuns]
  · refine ⟨?_, ?_⟩
    · rw [hnext, hs.readyListHead]
      exact h.linked.chain
    · rw [hs.readyListTail, h.linked.tail]
  · simpa only [hs.live, hst] using h.listed
  · simpa only [hs.live, hst, hid, hcan] using h.held
  · simpa only [hst, hid] using h.running
  · simpa only [hst, hid] using h.woken
  · simpa only [hs.live, hst] using h.others
  · simpa only [hs.live, hid] using h.idling

/-- `AddToBackOfReadyQueue` puts a thread on the list. -/
theorem queue (h : Placed s c l p out) (ht : s.live t = true) (htl : t ∉ l) (htp : p ≠ some t)
    (hid : (s.thr t).idling = false) :
    Placed (addToBackOfReadyQueue s t) c (l ++ [t]) p (fun u => out u ∧ u ≠ t) := by
  have hlinked := addToBackOfReadyQueue_linked h.linked htl
  obtain ⟨next, head, tail, heq⟩ := addToBackOfReadyQueue_relinked s t
  have hst : ∀ u, ((addToBackOfReadyQueue s t).thr u).state =
      if u = t then .ready else (s.thr u).state := by
    intro u
    rw [heq]
    by_cases hu : u = t <;> simp [Sched.setReady, hu]
  have hidl : ∀ u, ((addToBackOfReadyQueue s t).thr u).idling = (s.thr u).idling := by
    intro u
    rw [heq]
    by_cases hu : u = t <;> simp [Sched.setReady, hu]
  have hcan : ∀ u, canThreadRunOnThisCpu (addToBackOfReadyQueue s t) u =
      canThreadRunOnThisCpu s u := by
    intro u
    unfold canThreadRunOnThisCpu
    rw [heq]
    by_cases hu : u = t <;> simp [Sched.setReady, hu]
  have hlive : (addToBackOfReadyQueue s t).live = s.live := by rw [heq]; rfl
  constructor
  · rw [heq]; exact h.init
  · rw [heq]; exact h.current
  · rw [hlive]; exact h.currentLive
  · rw [hcan]; exact h.currentRuns
  · exact hlinked
  · intro u hu
    rw [hlive, hst]
    rcases List.mem_append.mp hu with hu | hu
    · refine ⟨(h.listed u hu).1, ?_⟩
      split
      · rfl
      · exact (h.listed u hu).2
    · obtain rfl := List.mem_singleton.mp hu
      exact ⟨ht, if_pos rfl⟩
  · intro u hu
    obtain ⟨h1, h2, h3, h4, h5, h6⟩ := h.held u hu
    have hut : u ≠ t := by
      rintro rfl
      exact htp hu
    rw [hlive, hst, hcan, hidl, if_neg hut]
    exact ⟨h1, h2, by simp [h3, hut], h4, h5, h6⟩
  · rw [hst, hidl]
    split
    · next hct =>
      intro
      rw [hct, hid]
    · exact h.running
  · rw [hst, hidl]
    intro ho
    by_cases hct : c = t
    · subst hct
      simp [hid]
    · rw [if_neg hct]
      intro hr
      have := h.woken (fun hoc => ho ⟨hoc, hct⟩) hr
      simpa [hct] using this
  · intro u hu huc ho
    rw [hlive] at hu
    rw [hst]
    by_cases hut : u = t
    · exact Or.inr ⟨if_pos hut, Or.inl (by simp [hut])⟩
    · rw [if_neg hut]
      rcases h.others u hu huc (fun hou => ho ⟨hou, hut⟩) with h1 | ⟨h1, h2⟩
      · exact Or.inl h1
      · exact Or.inr ⟨h1, h2.imp (fun h3 => by simp [h3]) id⟩
  · intro u hu hi
    rw [hlive] at hu
    rw [hidl] at hi
    exact h.idling u hu hi

/-- The thread a switch was postponed to is taken in hand. -/
theorem unhold (h : Placed s c l (some t) out) :
    Placed s c l none (fun u => out u ∨ u = t) :=
  { h with
    held := fun u hu => by simp at hu
    woken := fun hc => h.woken fun hoc => hc (Or.inl hoc)
    others := fun u hu huc ho => by
      rcases h.others u hu huc (fun hou => ho (Or.inl hou)) with h1 | ⟨h1, h2 | h2⟩
      · exact Or.inl h1
      · exact Or.inr ⟨h1, Or.inl h2⟩
      · exact absurd (Or.inr (Option.some.inj h2).symm) ho }

/-- A switch is postponed to `t`. -/
theorem hold (h : Placed s c l none out) (ht : s.live t = true) (hr : (s.thr t).state = .ready)
    (htl : t ∉ l) (htc : t ≠ c) (hcan : canThreadRunOnThisCpu s t = true)
    (hid : (s.thr c).idling = false) : Placed s c l (some t) (fun u => out u ∧ u ≠ t) :=
  { h with
    held := fun u hu => by
      obtain rfl := Option.some.inj hu
      exact ⟨ht, hr, htl, htc, hcan, hid⟩
    woken := fun hc => h.woken fun hoc => hc ⟨hoc, htc.symm⟩
    others := fun u hu huc ho => by
      by_cases hut : u = t
      · subst hut
        exact Or.inr ⟨hr, Or.inr rfl⟩
      · rcases h.others u hu huc (fun hou => ho ⟨hou, hut⟩) with h1 | ⟨h1, h2⟩
        · exact Or.inl h1
        · exact Or.inr ⟨h1, Or.inl (h2.resolve_right (by simp))⟩ }

/-- `FindNextThread` takes a thread off the list. -/
theorem take (h : Placed s c l p out) {a b : List Nat} (hl : l = a ++ t :: b)
    (hr : Relinked s s') (hl' : Linked s' (a ++ b)) :
    Placed s' c (a ++ b) p (fun u => out u ∨ u = t) := by
  subst hl
  have hnd := h.linked.chain.nodup
  obtain ⟨next, head, tail, rfl⟩ := hr
  have hmem : ∀ u, u ∈ a ++ b → u ∈ a ++ t :: b := by
    intro u hu
    rcases List.mem_append.mp hu with hu | hu <;> simp [hu]
  have hmem' : ∀ u, u ≠ t → (u ∈ a ++ b ↔ u ∈ a ++ t :: b) := by
    intro u hu
    simp [hu]
  constructor
  · exact h.init
  · exact h.current
  · exact h.currentLive
  · exact h.currentRuns
  · exact hl'
  · exact fun u hu => h.listed u (hmem u hu)
  · intro u hu
    obtain ⟨h1, h2, h3, h4⟩ := h.held u hu
    exact ⟨h1, h2, fun h5 => h3 (hmem u h5), h4⟩
  · exact h.running
  · intro ho hr
    rw [hmem' c (fun hct => ho (Or.inr hct))]
    exact h.woken (fun hoc => ho (Or.inl hoc)) hr
  · intro u hu huc ho
    rw [hmem' u (fun hut => ho (Or.inr hut))]
    exact h.others u hu huc fun hou => ho (Or.inl hou)
  · exact h.idling

/-- The current thread runs on. -/
theorem runSelf (h : Placed s c l p (fun u => u = c)) (hcl : c ∉ l)
    (hid : (s.thr c).idling = false) :
    Placed (s.modify c fun th => { th with state := .running, nextReady := none }) c l p
      noThread := by
  have hst : ∀ u, u ≠ c → ((s.modify c fun th =>
      { th with state := .running, nextReady := none }).thr u) = s.thr u := by
    intro u hu
    simp [hu]
  have hself : ((s.modify c fun th => { th with state := .running, nextReady := none }).thr c) =
      { s.thr c with state := .running, nextReady := none } := by simp
  have hcan : ∀ u, canThreadRunOnThisCpu (s.modify c fun th =>
      { th with state := .running, nextReady := none }) u = canThreadRunOnThisCpu s u := by
    intro u
    by_cases hu : u = c <;> simp [canThreadRunOnThisCpu, hu]
  constructor
  · exact h.init
  · exact h.current
  · exact h.currentLive
  · rw [hcan]; exact h.currentRuns
  · refine ⟨Chain.congr (fun u hu => ?_) h.linked.chain, h.linked.tail⟩
    rw [hst u (fun huc => hcl (huc ▸ hu))]
  · intro u hu
    rw [hst u (fun huc => hcl (huc ▸ hu))]
    exact h.listed u hu
  · intro u hu
    obtain ⟨h1, h2, h3, h4, h5, h6⟩ := h.held u hu
    rw [hst u h4, hcan, hself]
    exact ⟨h1, h2, h3, h4, h5, hid⟩
  · intro
    rw [hself]
    exact hid
  · intro _ hr
    rw [hself] at hr
    simp at hr
  · intro u hu huc _
    rw [hst u huc]
    exact h.others u hu huc huc
  · intro u hu hi
    by_cases huc : u = c
    · exact huc
    · rw [hst u huc] at hi
      exact h.idling u hu hi

/-- The CPU switches to another thread. -/
theorem runOther (h : Placed s c l none (fun u => u = t)) (ht : s.live t = true) (htl : t ∉ l)
    (htc : t ≠ c) (hcan : canThreadRunOnThisCpu s t = true) (hid : (s.thr c).idling = false)
    (hc : (s.thr c).state ≠ .running) : Placed (runThread s c t) t l none noThread := by
  have hst : ∀ u, u ≠ t → ((runThread s c t).thr u).state = (s.thr u).state ∧
      ((runThread s c t).thr u).nextReady = (s.thr u).nextReady := by
    intro u hu
    by_cases huc : u = c
    · subst huc
      simp [runThread, hu]
    · simp [runThread, hu, huc]
  have hself : ((runThread s c t).thr t).state = .running := by simp [runThread, htc]
  have hidl : ∀ u, ((runThread s c t).thr u).idling = (s.thr u).idling := by
    intro u
    by_cases hut : u = t
    · subst hut
      simp [runThread, htc]
    · by_cases huc : u = c
      · subst huc
        simp [runThread, hut]
      · simp [runThread, hut, huc]
  have hcan' : ∀ u, canThreadRunOnThisCpu (runThread s c t) u = canThreadRunOnThisCpu s u := by
    intro u
    unfold canThreadRunOnThisCpu
    by_cases hut : u = t
    · subst hut
      simp [runThread, htc]
    · by_cases huc : u = c
      · subst huc
        simp [runThread, hut]
      · simp [runThread, hut, huc]
  have hnoidle : ∀ u, s.live u = true → (s.thr u).idling = false := by
    intro u hu
    by_contra hi
    have := h.idling u hu (by simpa using hi)
    subst this
    exact hi hid
  constructor
  · exact h.init
  · rfl
  · exact ht
  · rw [hcan']; exact hcan
  · refine ⟨Chain.congr (fun u hu => ?_) h.linked.chain, h.linked.tail⟩
    exact (hst u (fun hut => htl (hut ▸ hu))).2
  · intro u hu
    rw [(hst u (fun hut => htl (hut ▸ hu))).1]
    exact h.listed u hu
  · intro u hu
    simp at hu
  · intro
    rw [hidl]
    exact hnoidle t ht
  · intro _ hr
    rw [hself] at hr
    simp at hr
  · intro u hu hut _
    rw [(hst u hut).1]
    by_cases huc : u = c
    · subst huc
      -- the old thread is blocked, or was woken early and is on the list
      cases hs : (s.thr u).state with
      | running => exact absurd hs hc
      | ready => exact Or.inr ⟨rfl, Or.inl ((h.woken htc.symm hs).mpr hid)⟩
      | blocked => exact Or.inl rfl
    · rcases h.others u hu huc hut with h1 | ⟨h1, h2 | h2⟩
      · exact Or.inl h1
      · exact Or.inr ⟨h1, Or.inl h2⟩
      · simp at h2
  · intro u hu hi
    rw [hidl, hnoidle u hu] at hi
    simp at hi

end Placed

end Nolrem.Task
