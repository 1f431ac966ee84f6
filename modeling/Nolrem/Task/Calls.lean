import Nolrem.Task.Switch

/-!
# The calls of the scheduler

One lemma for each function that the rest of the kernel calls: it keeps the invariant, it
puts no awake thread back to sleep, and it stops the machine only when a counter runs over.
-/

namespace Nolrem.Task

open Nolrem.Lib

/-- What a call leaves. -/
def Kept (s s' : Sched) : Prop := Inv s' ∧ Wakeful s s'

theorem getCurrentThread_spec {s : Sched} {c : Nat} {err : Halt → Prop}
    (h : s.currentThread = some c) : Ends (getCurrentThread s) (fun t => c = t) err := by
  unfold getCurrentThread
  rw [h]
  exact rfl

/-! ## Leaving a section -/

theorem releasePostponed_spec {s : Sched} {c : Nat} {l : List Nat} {p : Option Nat}
    (h : Placed s c l p noThread) (hlock : s.schedLock = true) (hoff : s.cpu.interrupts = false)
    (hprevent : s.schedPreventCount = 0)
    (hk : s.cpu.irqDisableCounter = if (s.thr c).idling = true then 3 else 2)
    (hpost : s.schedPostponed = false) (hheld : s.schedPostponedThr = none)
    (hsaved : ∀ t, s.live t = true → t ≠ c → (s.thr t).irqDisableCounter = 2) (fuel : Nat) :
    Ends (releasePostponed fuel s p) (Kept s) (fun e => e = .outOfFuel ∧ fuel ≤ l.length + 1) := by
  have hidle : isCurrentThreadIdling s = (s.thr c).idling := by
    unfold isCurrentThreadIdling
    rw [h.current]
    simp [h.init]
  unfold releasePostponed
  rw [hidle]
  cases hid : (s.thr c).idling with
  | true =>
    have hp : p = none := by
      cases p with
      | none => rfl
      | some t =>
        obtain ⟨-, -, -, -, -, hc⟩ := h.held t rfl
        simp [hid] at hc
    subst hp
    simp only [if_true]
    rw [hid, if_pos rfl] at hk
    obtain ⟨cpu, h1, h2, h3⟩ := finishRelease_eq (s := s) (by omega)
    rw [h1, ends_ok]
    refine ⟨⟨c, l, ?_, ?_, ?_⟩, fun t ht => ht⟩
    · simp only [hheld]
      exact h.frame ⟨fun _ => ⟨rfl, rfl, rfl, rfl⟩, rfl, rfl, rfl, rfl, rfl, rfl⟩
    · refine ⟨rfl, Int.le_of_eq hprevent.symm, ?_, by simp only; omega, ?_, hsaved⟩
      · simp [hprevent, hid, h2, hk]
      · intro hp
        simp [hprevent] at hp
    · refine ⟨fun hp => absurd hheld hp, fun hp => ?_, fun _ => Or.inl hid⟩
      simp [hpost] at hp
  | false =>
    simp only [Bool.false_eq_true, if_false]
    rw [hid, if_neg (by simp)] at hk
    have hs : Switching s c := ⟨hid, hlock, hoff, hprevent, hk, hpost, hheld, hsaved⟩
    refine (switchToThread_spec h hs fuel).bind ?_
    rintro ⟨s', control⟩ ⟨hw, hres⟩
    cases control with
    | parked => exact ⟨hres, hw⟩
    | returned =>
      obtain ⟨c', l', hh⟩ := hres
      exact (resume_spec hh).mono (fun _ h => ⟨h.1, hw.trans h.2⟩) (fun _ h => h.elim)

theorem releaseScheduler_spec {s : Sched} {c : Nat} {l : List Nat} (h : InvAt s c l)
    (hprevent : 0 < s.schedPreventCount) (fuel : Nat) :
    Ends (releaseScheduler fuel s) (Kept s)
      (Overrun s.cpu.irqDisableCounter fuel (l.length + 1)) := by
  obtain ⟨hplaced, hq, hdue⟩ := h
  unfold releaseScheduler
  rw [hq.off hprevent]
  simp only [Bool.false_eq_true, if_false]
  refine ((acquireSpinlock_spec hq.small hq.lock).mono (fun _ h => h) (fun _ h => Or.inl h)).bind ?_
  rintro _ ⟨cpu, rfl, hoff, hk, hsmall⟩
  have hcounter := hq.counter
  show Ends (if s.schedPreventCount - 1 = 0 ∧ s.schedPostponed = true then _ else _) _ _
  split
  · next hzero =>
    have hplaced' : Placed { s with
        cpu := cpu, schedLock := true, schedPreventCount := s.schedPreventCount - 1,
        schedPostponed := false, schedPostponedThr := none } c l s.schedPostponedThr noThread :=
      hplaced.frame ⟨fun _ => ⟨rfl, rfl, rfl, rfl⟩, rfl, rfl, rfl, rfl, rfl, rfl⟩
    refine (releasePostponed_spec hplaced' rfl hoff hzero.1 ?_ rfl rfl hq.saved fuel).mono
      (fun _ h => h) (fun _ h => Or.inr h)
    simp only
    split at hcounter
    · next hid => rw [if_pos hid]; omega
    · next hid => rw [if_neg hid]; omega
  · next hnot =>
    have hkpos : 0 < s.cpu.irqDisableCounter := by split at hcounter <;> omega
    obtain ⟨cpu', h1, h2, h3⟩ := finishRelease_eq
      (s := { s with cpu := cpu, schedLock := true, schedPreventCount := s.schedPreventCount - 1 })
      (by simp only; omega)
    simp only at h2 h3
    show Ends (finishRelease _) _ _
    rw [h1, ends_ok]
    refine ⟨⟨c, l, ?_, ?_, ?_⟩, fun t ht => ht⟩
    · exact hplaced.frame ⟨fun _ => ⟨rfl, rfl, rfl, rfl⟩, rfl, rfl, rfl, rfl, rfl, rfl⟩
    · refine ⟨rfl, by simp only; omega, ?_, by simp only; omega, ?_, hq.saved⟩
      · simp only
        split at hcounter
        · next hid => rw [if_pos hid]; omega
        · next hid => rw [if_neg hid]; omega
      · intro hp
        simp only at hp ⊢
        rw [h3 (by split at hcounter <;> omega), hoff]
    · refine ⟨hdue.held, fun hp => ?_, hdue.leaving⟩
      have := hdue.pending hp
      have hne : s.schedPreventCount - 1 ≠ 0 := fun hz => hnot ⟨hz, hp⟩
      simp only
      omega

/-- `AcquireScheduler` keeps the invariant and opens a section. -/
theorem acquireScheduler_inv {s : Sched} {c : Nat} {l : List Nat} {out : Nat → Prop}
    (hplaced : Placed s c l s.schedPostponedThr out) (hq : Quiet s c) :
    Ends (acquireScheduler s)
      (fun s' => (∃ cpu, s' = { s with
          cpu := cpu, schedPreventCount := s.schedPreventCount + 1 }) ∧
        Placed s' c l s'.schedPostponedThr out ∧ Quiet s' c ∧
        s'.schedPreventCount = s.schedPreventCount + 1 ∧
        s'.cpu.irqDisableCounter = s.cpu.irqDisableCounter + 1)
      (Wrapped (s.cpu.irqDisableCounter + 1)) := by
  refine (acquireScheduler_spec hq.small hq.lock).mono ?_ (fun _ h => h)
  rintro _ ⟨cpu, rfl, hoff, hk, hsmall⟩
  have hcounter := hq.counter
  have hprevent := hq.prevent
  refine ⟨⟨cpu, rfl⟩,
    hplaced.frame ⟨fun _ => ⟨rfl, rfl, rfl, rfl⟩, rfl, rfl, rfl, rfl, rfl, rfl⟩,
    ⟨hq.lock, by simp only; omega, ?_, hsmall, fun _ => hoff, hq.saved⟩, rfl, hk⟩
  simp only
  omega

theorem acquireScheduler_kept {s : Sched} {c : Nat} {l : List Nat} (h : InvAt s c l) :
    Ends (acquireScheduler s) (Kept s) (Wrapped (s.cpu.irqDisableCounter + 1)) := by
  have hprevent := h.quiet.prevent
  refine (acquireScheduler_inv h.placed h.quiet).mono ?_ (fun _ h => h)
  rintro _ ⟨⟨cpu, rfl⟩, hp, hq, h1, h2⟩
  refine ⟨⟨c, l, hp, hq, h.due.held, fun hd => ?_, h.due.leaving⟩, fun t ht => ht⟩
  simp only
  omega

theorem schedule_spec {s : Sched} {c : Nat} {l : List Nat}
    (hplaced : Placed s c l s.schedPostponedThr noThread) (hq : Quiet s c) (fuel : Nat) :
    Ends (schedule fuel s) (Kept s)
      (Overrun (s.cpu.irqDisableCounter + 1) fuel (l.length + 1)) := by
  have hprevent := hq.prevent
  unfold schedule
  refine ((acquireScheduler_inv hplaced hq).mono (fun _ h => h) (fun _ h => Or.inl h)).bind ?_
  rintro _ ⟨⟨cpu, rfl⟩, hp', hq', h1, h2⟩
  have hinv : InvAt { s with
      cpu := cpu, schedPreventCount := s.schedPreventCount + 1, schedPostponed := true } c l := by
    refine ⟨hp'.frame ⟨fun _ => ⟨rfl, rfl, rfl, rfl⟩, rfl, rfl, rfl, rfl, rfl, rfl⟩, ?_, ?_⟩
    · exact ⟨hq'.lock, hq'.prevent, hq'.counter, hq'.small, hq'.off, hq'.saved⟩
    · refine ⟨fun _ => rfl, fun _ => ?_, fun _ => Or.inr rfl⟩
      simp only
      omega
  refine (releaseScheduler_spec hinv (by simp only; omega) fuel).mono (fun _ h => h) ?_
  intro e he
  exact he.mono (Nat.le_of_eq h2) (Nat.le_refl _)

/-! ## The idle loop -/

/-- The idle loop ends for the idler. -/
theorem Placed.unidle {s : Sched} {c : Nat} {l : List Nat} {out : Nat → Prop}
    (h : Placed s c l none out) :
    Placed (s.modify c fun th => { th with idling := false }) c l none
      (fun u => out u ∨ u = c ∧ (s.thr c).state = .ready) := by
  have hthr : ∀ u, ((s.modify c fun th => { th with idling := false }).thr u).state =
      (s.thr u).state ∧ ((s.modify c fun th => { th with idling := false }).thr u).nextReady =
      (s.thr u).nextReady ∧
      ((s.modify c fun th => { th with idling := false }).thr u).affinityBitmask =
      (s.thr u).affinityBitmask := by
    intro u
    by_cases hu : u = c
    · subst hu
      simp
    · simp [hu]
  refine ⟨h.init, h.current, h.currentLive, ?_, ⟨?_, h.linked.tail⟩, ?_, ?_, ?_, ?_, ?_, ?_⟩
  · have := h.currentRuns
    unfold canThreadRunOnThisCpu at this ⊢
    rw [(hthr c).2.2]
    exact this
  · exact Chain.congr (fun u _ => (hthr u).2.1) h.linked.chain
  · intro u hu
    rw [(hthr u).1]
    exact h.listed u hu
  · intro u hu
    simp at hu
  · intro
    simp
  · intro ho hr
    rw [(hthr c).1] at hr
    exact absurd (Or.inr ⟨rfl, hr⟩) ho
  · intro u hu huc ho
    rw [(hthr u).1]
    exact h.others u hu huc fun hou => ho (Or.inl hou)
  · intro u hu hi
    by_cases huc : u = c
    · exact huc
    · simp only [Sched.modify, ne_eq, huc, not_false_eq_true, Function.update_of_ne] at hi
      exact h.idling u hu hi

theorem unidle_wakeful (s : Sched) (c : Nat) :
    Wakeful s (s.modify c fun th => { th with idling := false }) := by
  intro u hu
  by_cases huc : u = c
  · subst huc
    simpa using hu
  · simpa [huc] using hu

theorem idleWake_spec {s : Sched} {c : Nat} {l : List Nat} (h : InvAt s c l)
    (hid : (s.thr c).idling = true) (hon : s.cpu.interrupts = true) (fuel : Nat) :
    Ends (idleWake fuel s) (Kept s) (Overrun s.cpu.irqDisableCounter fuel (l.length + 1)) := by
  obtain ⟨hplaced, hq, hdue⟩ := h
  have hzero : s.schedPreventCount = 0 := by
    by_contra hne
    have := hq.off (by have := hq.prevent; omega)
    simp [hon] at this
  have hpost : s.schedPostponed = false := by
    by_contra hp
    have := hdue.pending (by simpa using hp)
    omega
  have hheld : s.schedPostponedThr = none := by
    by_contra hp
    have := hdue.held hp
    simp [hpost] at this
  rw [hheld] at hplaced
  have hk : s.cpu.irqDisableCounter = 1 := by
    have := hq.counter
    rw [if_pos hid] at this
    omega
  unfold idleWake
  refine (getCurrentThread_spec hplaced.current).bind ?_
  rintro _ rfl
  refine ((acquireSpinlock_spec (s := { s with cpu.interrupts := false }) hq.small hq.lock).mono
    (fun _ h => h) (fun _ h => Or.inl h)).bind ?_
  rintro _ ⟨cpu, rfl, hoff, hk2, -⟩
  simp only [hk] at hk2
  have hplaced1 : Placed { s with cpu := cpu, schedLock := true } c l none noThread :=
    hplaced.frame ⟨fun _ => ⟨rfl, rfl, rfl, rfl⟩, rfl, rfl, rfl, rfl, rfl, rfl⟩
  -- once the idler is no longer marked, the CPU is inside `SwitchToThread` as before the loop
  have hswitch : ∀ s1, Relinked { s with cpu := cpu, schedLock := true } s1 →
      Switching (s1.modify c fun th => { th with idling := false }) c := by
    rintro _ ⟨next, head, tail, rfl⟩
    refine ⟨by simp, rfl, hoff, hzero, hk2, hpost, hheld, ?_⟩
    intro u hu huc
    simpa [huc] using hq.saved u hu huc
  show Ends (if (s.thr c).state = .ready then _ else _) _ _
  split
  · next hready =>
    have hcl : c ∉ l := fun hcl => by
      have := (hplaced.woken id hready).mp hcl
      simp [hid] at this
    obtain ⟨h1, h2⟩ := runFound_handed
      (hplaced1.unidle.mono (o := fun u => u = c) (by simp)) (hswitch _ (Relinked.refl _))
      hplaced.currentLive hcl
      (by have := hplaced1.unidle.currentRuns; exact this) (fun hne => absurd rfl hne)
    refine (resume_spec h1).mono (fun s' hs' => ⟨hs'.1, ?_⟩) (fun _ h => h.elim)
    exact (unidle_wakeful { s with cpu := cpu, schedLock := true } c).trans (h2.trans hs'.2)
  · next hready =>
    have hrun : (s.thr c).state ≠ .running := fun hr => by
      have := hplaced.running hr
      simp [hid] at this
    have hcl : c ∉ l := hplaced.current_not_mem hready
    refine ((findNextThread_spec hplaced1.linked fuel).mono (fun _ h => h)
      (fun e he => Or.inr ⟨he.1, by omega⟩)).bind ?_
    rintro ⟨s1, found⟩ hf
    cases found with
    | none =>
      obtain ⟨rfl, -⟩ := hf.none_ok rfl
      exact (idlePark_spec hplaced1 hid hzero hk2 hpost hheld hq.saved).mono
        (fun _ h => h) (fun _ h => h.elim)
    | some t =>
      obtain ⟨hcan, hr, a, b, hl, hlinked⟩ := hf.some_ok t rfl
      have hplaced2 := (hplaced1.take hl hr hlinked).unidle
      have htl : t ∉ a ++ b := by
        have hnd := hplaced.linked.chain.nodup
        rw [hl] at hnd
        exact (List.nodup_cons.mp (List.perm_middle.nodup_iff.mp hnd)).1
      have hlive := (hplaced.listed t (by simp [hl])).1
      have hsw := hswitch s1 hr
      have htc : t ≠ c := fun htc => hcl (by simp [hl, htc])
      have hw := hr.wakeful.trans (unidle_wakeful s1 c)
      obtain ⟨next, head, tail, rfl⟩ := hr
      have hplaced3 := hplaced2.mono (o := fun u => u = t) (by
        rintro u ((hu | hu) | ⟨-, hu⟩)
        · exact hu.elim
        · exact hu
        · exact absurd hu hready)
      have hcan' := hcan
      unfold canThreadRunOnThisCpu at hcan'
      obtain ⟨h1, h2⟩ := runFound_handed hplaced3 hsw hlive htl
        (by simpa [canThreadRunOnThisCpu, htc] using hcan') (fun _ => by simpa using hrun)
      exact (resume_spec h1).mono (fun s' hs' => ⟨hs'.1, hw.trans (h2.trans hs'.2)⟩)
        (fun _ h => h.elim)

/-! ## Blocking -/

theorem blockThread_spec {s : Sched} {c : Nat} {l : List Nat} (h : InvAt s c l)
    (hready : (s.thr c).state ≠ .ready) (fuel : Nat) :
    Ends (blockThread fuel s)
      (fun s' => Inv s' ∧ ∀ t, (s.thr t).state = .ready → (s'.thr t).state ≠ .blocked)
      (Overrun (s.cpu.irqDisableCounter + 1) fuel (l.length + 1)) := by
  obtain ⟨hplaced, hq, -⟩ := h
  have hcl := hplaced.current_not_mem hready
  have hother : ∀ u, u ≠ c →
      (s.modify c fun th => { th with state := .blocked }).thr u = s.thr u := by
    intro u hu
    simp [hu]
  have hself : (s.modify c fun th => { th with state := .blocked }).thr c =
      { s.thr c with state := .blocked } := by simp
  have hblocked : Placed (s.modify c fun th => { th with state := .blocked }) c l
      s.schedPostponedThr noThread := by
    refine ⟨hplaced.init, hplaced.current, hplaced.currentLive, ?_, ⟨?_, hplaced.linked.tail⟩,
      ?_, ?_, ?_, ?_, ?_, ?_⟩
    · have := hplaced.currentRuns
      unfold canThreadRunOnThisCpu at this ⊢
      rw [hself]
      exact this
    · exact Chain.congr (fun u hu => by rw [hother u fun huc => hcl (huc ▸ hu)])
        hplaced.linked.chain
    · intro u hu
      rw [hother u fun huc => hcl (huc ▸ hu)]
      exact hplaced.listed u hu
    · intro u hu
      obtain ⟨h1, h2, h3, h4, h5, h6⟩ := hplaced.held u hu
      unfold canThreadRunOnThisCpu at h5 ⊢
      rw [hother u h4, hself]
      exact ⟨h1, h2, h3, h4, h5, h6⟩
    · intro hr
      rw [hself] at hr
      simp at hr
    · intro _ hr
      rw [hself] at hr
      simp at hr
    · intro u hu huc ho
      rw [hother u huc]
      exact hplaced.others u hu huc ho
    · intro u hu hi
      by_cases huc : u = c
      · exact huc
      · rw [hother u huc] at hi
        exact hplaced.idling u hu hi
  have hq' : Quiet (s.modify c fun th => { th with state := .blocked }) c := by
    refine ⟨hq.lock, hq.prevent, ?_, hq.small, hq.off, fun u hu huc => ?_⟩
    · rw [hself]
      exact hq.counter
    · rw [hother u huc]
      exact hq.saved u hu huc
  unfold blockThread
  refine (getCurrentThread_spec hplaced.current).bind ?_
  rintro _ rfl
  refine (schedule_spec hblocked hq' fuel).mono (fun s' hs' => ⟨hs'.1, fun t ht => ?_⟩)
    (fun _ h => h)
  refine hs'.2 t ?_
  have htc : t ≠ c := by
    rintro rfl
    exact hready ht
  rw [hother t htc, ht]
  simp

/-! ## Waking -/

/-- `t` is marked READY and is in the hands of `UnblockThread`. -/
theorem Placed.wake {s : Sched} {c t : Nat} {l : List Nat} {p : Option Nat}
    (h : Placed s c l p (fun u => u = t)) (htl : t ∉ l) (htp : p ≠ some t) :
    Placed (s.modify t fun th => { th with nextReady := none, state := .ready }) c l p
      (fun u => u = t) := by
  have hother : ∀ u, u ≠ t → (s.modify t fun th =>
      { th with nextReady := none, state := .ready }).thr u = s.thr u := by
    intro u hu
    simp [hu]
  have hself : (s.modify t fun th => { th with nextReady := none, state := .ready }).thr t =
      { s.thr t with nextReady := none, state := .ready } := by simp
  have hid : ∀ u, ((s.modify t fun th =>
      { th with nextReady := none, state := .ready }).thr u).idling = (s.thr u).idling := by
    intro u
    by_cases hu : u = t
    · rw [hu, hself]
    · rw [hother u hu]
  have hcan : ∀ u, canThreadRunOnThisCpu (s.modify t fun th =>
      { th with nextReady := none, state := .ready }) u = canThreadRunOnThisCpu s u := by
    intro u
    unfold canThreadRunOnThisCpu
    by_cases hu : u = t
    · rw [hu, hself]
      rfl
    · rw [hother u hu]
      rfl
  refine ⟨h.init, h.current, h.currentLive, ?_, ⟨?_, h.linked.tail⟩, ?_, ?_, ?_, ?_, ?_, ?_⟩
  · rw [hcan]
    exact h.currentRuns
  · exact Chain.congr (fun u hu => by rw [hother u fun hut => htl (hut ▸ hu)]) h.linked.chain
  · intro u hu
    rw [hother u fun hut => htl (hut ▸ hu)]
    exact h.listed u hu
  · intro u hu
    have hut : u ≠ t := fun hut => htp (hut ▸ hu)
    rw [hid, hcan, hother u hut]
    exact h.held u hu
  · rw [hid]
    by_cases hct : c = t
    · rw [hct, hself]
      intro hr
      simp at hr
    · rw [hother c hct]
      exact h.running
  · rw [hid]
    intro ho
    rw [hother c ho]
    exact h.woken ho
  · intro u hu huc ho
    rw [hother u ho]
    exact h.others u hu huc ho
  · intro u hu hi
    rw [hid] at hi
    exact h.idling u hu hi

/-- What `ShouldPreempt` answers yes to. -/
theorem shouldPreempt_spec {s : Sched} {c t : Nat} {l : List Nat} {p : Option Nat}
    {out : Nat → Prop} (h : Placed s c l p out) :
    Ends (shouldPreempt s t)
      (fun b => b = true → (s.thr c).state = .running ∧ canThreadRunOnThisCpu s t = true)
      (fun _ => False) := by
  unfold shouldPreempt
  simp only [h.init, Bool.true_eq_false, if_false]
  refine (getCurrentThread_spec h.current).bind ?_
  rintro _ rfl
  split
  · simp
  · next hrun =>
    split
    · simp
    · next hcan =>
      rw [ends_ok]
      exact fun _ => ⟨by simpa using hrun, by simpa using hcan⟩

/-- The fields that `Quiet` is about are the same. -/
structure SameCounters (s s' : Sched) : Prop where
  cpu : s'.cpu = s.cpu
  lock : s'.schedLock = s.schedLock
  prevent : s'.schedPreventCount = s.schedPreventCount
  live : s'.live = s.live
  thr : ∀ t, (s'.thr t).idling = (s.thr t).idling ∧
    (s'.thr t).irqDisableCounter = (s.thr t).irqDisableCounter

theorem SameCounters.trans {a b c : Sched} (h : SameCounters a b) (h' : SameCounters b c) :
    SameCounters a c :=
  ⟨h'.cpu.trans h.cpu, h'.lock.trans h.lock, h'.prevent.trans h.prevent, h'.live.trans h.live,
    fun t => ⟨(h'.thr t).1.trans (h.thr t).1, (h'.thr t).2.trans (h.thr t).2⟩⟩

theorem Quiet.frame {s s' : Sched} {c : Nat} (h : Quiet s c) (hs : SameCounters s s') :
    Quiet s' c := by
  refine ⟨?_, ?_, ?_, ?_, ?_, fun t ht htc => ?_⟩
  · rw [hs.lock, h.lock]
  · rw [hs.prevent]
    exact h.prevent
  · rw [hs.cpu, hs.prevent, (hs.thr c).1]
    exact h.counter
  · rw [hs.cpu]
    exact h.small
  · rw [hs.cpu, hs.prevent]
    exact h.off
  · rw [hs.live] at ht
    rw [(hs.thr t).2]
    exact h.saved t ht htc

theorem addToBackOfReadyQueue_sameCounters (s : Sched) (t : Nat) :
    SameCounters s (addToBackOfReadyQueue s t) := by
  obtain ⟨next, head, tail, heq⟩ := addToBackOfReadyQueue_relinked s t
  rw [heq]
  refine ⟨rfl, rfl, rfl, rfl, fun u => ?_⟩
  by_cases hu : u = t <;> simp [Sched.setReady, hu]

/-- What queueing or postponing a woken thread leaves. -/
structure Woken (s : Sched) (c : Nat) (l : List Nat) (s' : Sched) : Prop where
  placed : ∃ l', Placed s' c l' s'.schedPostponedThr noThread ∧ l'.length ≤ l.length + 1
  counters : SameCounters s s'
  wakeful : Wakeful s s'
  held : s'.schedPostponedThr ≠ none → s'.schedPostponed = true ∨ s.schedPostponedThr ≠ none
  postponed : s'.schedPostponed = true → s.schedPostponed = true ∨ (s.thr c).state = .running
  stays : s.schedPostponed = true → s'.schedPostponed = true
  current : (s'.thr c).state ≠ .running → (s.thr c).state ≠ .running

theorem queue_woken {s : Sched} {c t : Nat} {l : List Nat}
    (h : Placed s c l s.schedPostponedThr (fun u => u = t)) (ht : s.live t = true) (htl : t ∉ l)
    (htp : s.schedPostponedThr ≠ some t) (hid : (s.thr t).idling = false)
    (hready : (s.thr t).state = .ready) : Woken s c l (addToBackOfReadyQueue s t) := by
  have hq := (h.queue ht htl htp hid).mono (o := noThread) (by simp)
  have hc := addToBackOfReadyQueue_sameCounters s t
  have hw := addToBackOfReadyQueue_wakeful s t
  obtain ⟨next, head, tail, heq⟩ := addToBackOfReadyQueue_relinked s t
  rw [heq] at hq hc hw ⊢
  refine ⟨⟨_, hq, by simp⟩, hc, hw, fun h => Or.inr h, fun h => Or.inl h, id, ?_⟩
  by_cases hct : c = t
  · subst hct
    simp [Sched.setReady, hready]
  · simp [Sched.setReady, hct]

theorem postpone_woken {s : Sched} {c t : Nat} {l : List Nat}
    (h : Placed s c l s.schedPostponedThr (fun u => u = t)) (ht : s.live t = true) (htl : t ∉ l)
    (htp : s.schedPostponedThr ≠ some t) (hready : (s.thr t).state = .ready)
    (hrun : (s.thr c).state = .running) (hcan : canThreadRunOnThisCpu s t = true) :
    Woken s c l (postpone s t) := by
  have htc : t ≠ c := by
    rintro rfl
    simp [hready] at hrun
  have hidc := h.running hrun
  have hid : (s.thr t).idling = false := by
    by_contra hi
    exact htc (h.idling t ht (by simpa using hi))
  have hset : ∀ {p : Option Nat} {out : Nat → Prop}, Placed s c l p out →
      Placed { s with schedPostponed := true } c l p out := fun h' =>
    h'.frame ⟨fun _ => ⟨rfl, rfl, rfl, rfl⟩, rfl, rfl, rfl, rfl, rfl, rfl⟩
  unfold postpone
  split
  · next hp =>
    rw [hp] at h
    have hh := (h.hold ht hready htl htc hcan hidc).mono (o := noThread) (by simp)
    refine ⟨⟨l, ?_, by simp⟩, ⟨rfl, rfl, rfl, rfl, fun _ => ⟨rfl, rfl⟩⟩, fun _ h => h,
      fun _ => Or.inl rfl, fun _ => Or.inr hrun, fun _ => rfl, id⟩
    exact hh.frame ⟨fun _ => ⟨rfl, rfl, rfl, rfl⟩, rfl, rfl, rfl, rfl, rfl, rfl⟩
  · next p hp =>
    rw [hp] at h htp
    obtain ⟨hplive, hpready, hpl, hpc, hpcan, -⟩ := h.held p rfl
    have htp' : t ≠ p := fun htp' => htp (by rw [htp'])
    have hidp : (s.thr p).idling = false := by
      by_contra hi
      exact hpc (h.idling p hplive (by simpa using hi))
    simp only
    split
    · -- the thread that was held goes to the list, and `t` is held instead
      have hq := (hset h.unhold).queue (t := p) hplive hpl (by simp) hidp
      have hc := addToBackOfReadyQueue_sameCounters { s with schedPostponed := true } p
      have hw := addToBackOfReadyQueue_wakeful { s with schedPostponed := true } p
      obtain ⟨next, head, tail, heq⟩ :=
        addToBackOfReadyQueue_relinked { s with schedPostponed := true } p
      rw [heq] at hq hc hw ⊢
      have hh := (hq.hold (t := t) ht (by simpa [Sched.setReady, htp'] using hready)
        (by simp [htl, htp']) htc
        (by simpa [canThreadRunOnThisCpu, Sched.setReady, htp'] using hcan)
        (by simpa [Sched.setReady, hpc.symm] using hidc)).mono (o := noThread) (by
          rintro u ⟨⟨h1 | h1, h2⟩, h3⟩
          · exact h3 h1
          · exact h2 h1)
      refine ⟨⟨l ++ [p], ?_, by simp⟩, ⟨hc.cpu, hc.lock, hc.prevent, hc.live, hc.thr⟩, hw,
        fun _ => Or.inl rfl, fun _ => Or.inr hrun, fun _ => rfl, ?_⟩
      · exact hh.frame ⟨fun _ => ⟨rfl, rfl, rfl, rfl⟩, rfl, rfl, rfl, rfl, rfl, rfl⟩
      · simp [Sched.setReady, hpc.symm]
    · have hw := queue_woken (s := { s with schedPostponed := true }) (t := t) (c := c) (l := l)
        (hset (by rw [hp]; exact h)) ht htl (by rw [hp]; exact htp) hid hready
      refine ⟨hw.placed, ⟨hw.counters.cpu, hw.counters.lock, hw.counters.prevent,
        hw.counters.live, hw.counters.thr⟩, hw.wakeful, fun _ => Or.inr (by simp [hp]),
        fun _ => Or.inr hrun, fun _ => hw.stays rfl, hw.current⟩

/-- `UnblockThread` for a thread that has no place yet. -/
theorem unblockThread_out {s : Sched} {c t : Nat} {l : List Nat}
    (h : Placed s c l s.schedPostponedThr (fun u => u = t)) (hq : Quiet s c) (hdue : Due s c)
    (ht : s.live t = true) (htl : t ∉ l) (htp : s.schedPostponedThr ≠ some t)
    (htc : t = c → (s.thr t).state ≠ .running) (hprevent : 0 < s.schedPreventCount) :
    Ends (unblockThread s t)
      (fun s' => (∃ l', InvAt s' c l' ∧ l'.length ≤ l.length + 1) ∧ Wakeful s s' ∧
        (s'.thr t).state ≠ .blocked ∧ s'.schedPreventCount = s.schedPreventCount ∧ s'.cpu = s.cpu)
      (fun _ => False) := by
  have h1 := h.wake htl htp
  have hready : ((s.modify t fun th =>
      { th with nextReady := none, state := .ready }).thr t).state = .ready := by simp
  have hothr : ∀ u, u ≠ t → (s.modify t fun th =>
      { th with nextReady := none, state := .ready }).thr u = s.thr u := by
    intro u hu
    simp [hu]
  have hself : (s.modify t fun th => { th with nextReady := none, state := .ready }).thr t =
      { s.thr t with nextReady := none, state := .ready } := by simp
  have hw1 : Wakeful s (s.modify t fun th => { th with nextReady := none, state := .ready }) := by
    intro u hu
    by_cases hut : u = t
    · simp [hut]
    · rwa [hothr u hut]
  have hc1 : SameCounters s (s.modify t fun th =>
      { th with nextReady := none, state := .ready }) := by
    refine ⟨rfl, rfl, rfl, rfl, fun u => ?_⟩
    by_cases hut : u = t
    · rw [hut, hself]
      exact ⟨rfl, rfl⟩
    · rw [hothr u hut]
      exact ⟨rfl, rfl⟩
  have hcur : ((s.modify t fun th => { th with nextReady := none, state := .ready }).thr c).state ≠
      .running → (s.thr c).state ≠ .running := by
    by_cases hct : t = c
    · intro _
      rw [← hct]
      exact htc hct
    · rw [hothr c (Ne.symm hct)]
      exact id
  -- each of the two ways to place `t` gives the invariant
  have hdone : ∀ s2, Woken (s.modify t fun th => { th with nextReady := none, state := .ready })
      c l s2 → (∃ l', InvAt (bumpSeq s2) c l' ∧ l'.length ≤ l.length + 1) ∧
        Wakeful s (bumpSeq s2) ∧ ((bumpSeq s2).thr t).state ≠ .blocked ∧
        (bumpSeq s2).schedPreventCount = s.schedPreventCount ∧ (bumpSeq s2).cpu = s.cpu := by
    intro s2 hs2
    obtain ⟨l2, hl2, hlen⟩ := hs2.placed
    have hcounters := hc1.trans hs2.counters
    have hw2 := hs2.wakeful t (by rw [hready]; simp)
    refine ⟨⟨l2, ⟨?_, ?_, ?_⟩, hlen⟩, hw1.trans hs2.wakeful, hw2, hcounters.prevent,
      hcounters.cpu⟩
    · exact hl2.frame ⟨fun _ => ⟨rfl, rfl, rfl, rfl⟩, rfl, rfl, rfl, rfl, rfl, rfl⟩
    · exact hq.frame ⟨hcounters.cpu, hcounters.lock, hcounters.prevent, hcounters.live,
        hcounters.thr⟩
    · refine ⟨fun hp => ?_, fun _ => ?_, fun hr => ?_⟩
      · rcases hs2.held hp with h2 | h2
        · exact h2
        · exact hs2.stays (hdue.held h2)
      · show 0 < s2.schedPreventCount
        rw [hcounters.prevent]
        exact hprevent
      · show (s2.thr c).idling = true ∨ s2.schedPostponed = true
        rw [(hcounters.thr c).1]
        exact (hdue.leaving (hcur (hs2.current hr))).imp id hs2.stays
  unfold unblockThread
  show Ends (if ((s.modify t fun th => { th with nextReady := none, state := .ready }).thr t).idling
    = true then _ else _) _ _
  split
  · next hid =>
    -- the idler stays off the list; its CPU sees that it is ready
    have hid' : (s.thr t).idling = true := by
      rw [hself] at hid
      exact hid
    have htc' : t = c := h.idling t ht hid'
    subst htc'
    rw [ends_ok]
    refine ⟨⟨l, ⟨?_, ?_, ?_⟩, by simp⟩, hw1, by simp, rfl, rfl⟩
    · have h2 : Placed (s.modify t fun th => { th with nextReady := none, state := .ready })
          t l s.schedPostponedThr noThread :=
        { h1 with
          woken := fun _ _ => by
            rw [hid]
            simp [htl]
          others := fun u hu huc _ => h1.others u hu huc huc }
      exact h2.frame ⟨fun _ => ⟨rfl, rfl, rfl, rfl⟩, rfl, rfl, rfl, rfl, rfl, rfl⟩
    · exact hq.frame ⟨rfl, rfl, rfl, rfl, hc1.thr⟩
    · exact ⟨hdue.held, hdue.pending, fun _ => Or.inl hid⟩
  · next hid =>
    have hid' : ((s.modify t fun th =>
        { th with nextReady := none, state := .ready }).thr t).idling = false := by simpa using hid
    refine (shouldPreempt_spec h1).bind ?_
    intro b hb
    split
    · next hbt =>
      obtain ⟨hrun, hcan⟩ := hb hbt
      exact hdone _ (postpone_woken h1 ht htl htp hready hrun hcan)
    · exact hdone _ (queue_woken h1 ht htl htp hid' hready)

theorem unblockThread_spec {s : Sched} {c t : Nat} {l : List Nat} (h : InvAt s c l)
    (ht : s.live t = true) (hblocked : (s.thr t).state = .blocked)
    (hprevent : 0 < s.schedPreventCount) :
    Ends (unblockThread s t)
      (fun s' => (∃ l', InvAt s' c l' ∧ l'.length ≤ l.length + 1) ∧ Wakeful s s' ∧
        (s'.thr t).state ≠ .blocked ∧ s'.schedPreventCount = s.schedPreventCount ∧ s'.cpu = s.cpu)
      (fun _ => False) := by
  refine unblockThread_out (l := l) (h.placed.mono fun u hu => hu.elim) h.quiet h.due ht ?_ ?_ ?_
    hprevent
  · intro htl
    have := (h.placed.listed t htl).2
    simp [hblocked] at this
  · intro htp
    have := (h.placed.held t htp).2.1
    simp [hblocked] at this
  · simp [hblocked]

/-! ## Threads -/

/-- A thread that is being created has no place yet. -/
theorem Placed.create {s : Sched} {c t : Nat} {l : List Nat} {p : Option Nat}
    (h : Placed s c l p noThread) (ht : s.live t = false) (hasEntry : Bool) :
    Placed { s.modify t fun th => newThread th hasEntry with
      live := Function.update s.live t true } c l p (fun u => u = t) := by
  have hne : ∀ u, s.live u = true → u ≠ t := by
    rintro u hu rfl
    simp [ht] at hu
  have hothr : ∀ u, u ≠ t → (s.modify t fun th => newThread th hasEntry).thr u = s.thr u := by
    intro u hu
    simp [hu]
  have hlive : ∀ u, u ≠ t → Function.update s.live t true u = s.live u := by
    intro u hu
    simp [hu]
  have hct := hne c h.currentLive
  refine ⟨h.init, h.current, ?_, ?_, ⟨?_, h.linked.tail⟩, ?_, ?_, ?_, ?_, ?_, ?_⟩
  · simp only [hlive c hct]
    exact h.currentLive
  · have := h.currentRuns
    unfold canThreadRunOnThisCpu at this ⊢
    simp only [hothr c hct]
    exact this
  · exact Chain.congr (fun u hu => by simp only [hothr u (hne u (h.listed u hu).1)])
      h.linked.chain
  · intro u hu
    have hut := hne u (h.listed u hu).1
    simp only [hothr u hut, hlive u hut]
    exact h.listed u hu
  · intro u hu
    obtain ⟨h1, h2, h3, h4, h5, h6⟩ := h.held u hu
    have hut := hne u h1
    unfold canThreadRunOnThisCpu at h5 ⊢
    simp only [hothr u hut, hlive u hut, hothr c hct]
    exact ⟨h1, h2, h3, h4, h5, h6⟩
  · simp only [hothr c hct]
    exact h.running
  · intro _
    simp only [hothr c hct]
    exact h.woken id
  · intro u hu huc hut
    simp only [hlive u hut] at hu
    simp only [hothr u hut]
    exact h.others u hu huc id
  · intro u hu hi
    by_cases hut : u = t
    · subst hut
      simp [newThread] at hi
    · simp only [hlive u hut] at hu
      simp only [hothr u hut] at hi
      exact h.idling u hu hi

theorem createThread_spec {s : Sched} {c t : Nat} {l : List Nat} {hasEntry : Bool}
    (h : InvAt s c l) (ht : s.live t = false) (fuel : Nat) :
    Ends (createThread fuel s t hasEntry)
      (fun s' => Inv s' ∧
        ∀ u, s.live u = true → (s.thr u).state ≠ .blocked → (s'.thr u).state ≠ .blocked)
      (Overrun (s.cpu.irqDisableCounter + 1) fuel (l.length + 2)) := by
  obtain ⟨hplaced, hq, hdue⟩ := h
  have hne : ∀ u, s.live u = true → u ≠ t := by
    rintro u hu rfl
    simp [ht] at hu
  have hct := hne c hplaced.currentLive
  have hothr : ∀ u, u ≠ t → (s.modify t fun th => newThread th hasEntry).thr u = s.thr u := by
    intro u hu
    simp [hu]
  have hq1 : Quiet { s.modify t fun th => newThread th hasEntry with
      live := Function.update s.live t true } c := by
    refine ⟨hq.lock, hq.prevent, ?_, hq.small, hq.off, fun u hu huc => ?_⟩
    · simp only [hothr c hct]
      exact hq.counter
    · by_cases hut : u = t
      · subst hut
        simp [newThread]
      · simp only [hothr u hut]
        simp only [ne_eq, hut, not_false_eq_true, Function.update_of_ne] at hu
        exact hq.saved u hu huc
  have hdue1 : Due { s.modify t fun th => newThread th hasEntry with
      live := Function.update s.live t true } c := by
    refine ⟨hdue.held, hdue.pending, ?_⟩
    simp only [hothr c hct]
    exact hdue.leaving
  unfold createThread
  refine ((acquireScheduler_inv (hplaced.create ht hasEntry) hq1).mono (fun _ h => h)
    (fun _ h => Or.inl h)).bind ?_
  rintro _ ⟨⟨cpu, rfl⟩, hplaced2, hq2, h1, h2⟩
  have htl : t ∉ l := fun htl => by
    have := (hplaced.listed t htl).1
    simp [ht] at this
  have htp : s.schedPostponedThr ≠ some t := fun htp => by
    have := (hplaced.held t htp).1
    simp [ht] at this
  have hprevent := hq.prevent
  refine ((unblockThread_out hplaced2 hq2
    ⟨hdue1.held, fun _ => by simp only; exact Int.lt_add_one_of_le hq.prevent, hdue1.leaving⟩
    (by simp) htl htp (fun htc => absurd htc.symm hct)
    (by simp only; exact Int.lt_add_one_of_le hq.prevent)).mono
    (fun _ h => h) (fun _ h => h.elim)).bind ?_
  rintro s3 ⟨⟨l3, hinv3, hlen⟩, hw3, -, hprevent3, hcpu3⟩
  have hprevent3' : 0 < s3.schedPreventCount := by
    rw [hprevent3]
    exact Int.lt_add_one_of_le hq.prevent
  refine (releaseScheduler_spec hinv3 hprevent3' fuel).mono
    (fun s' hs' => ⟨hs'.1, fun u hu hr => hs'.2 u (hw3 u ?_)⟩) (fun e he => he.mono ?_ (by omega))
  · simp only [hothr u (hne u hu)]
    exact hr
  · rw [hcpu3]
    exact Nat.le_of_eq h2

theorem setThreadPriority_spec {s : Sched} {c : Nat} {l : List Nat} (h : InvAt s c l)
    (t priority fuel : Nat) :
    Ends (setThreadPriority fuel s t priority) (Kept s)
      (Overrun (s.cpu.irqDisableCounter + 1) fuel (l.length + 1)) := by
  obtain ⟨hplaced, hq, hdue⟩ := h
  unfold setThreadPriority
  refine ((acquireScheduler_inv hplaced hq).mono (fun _ h => h) (fun _ h => Or.inl h)).bind ?_
  rintro s2 ⟨⟨cpu, hs2⟩, hplaced2, hq2, h1, h2⟩
  have hthr : ∀ u, (s2.modify t fun th => { th with priority := priority }).thr u =
      { s2.thr u with priority := if u = t then priority else (s2.thr u).priority } := by
    intro u
    by_cases hu : u = t
    · subst hu
      simp
    · simp [hu]
  have hw : Wakeful s2 (s2.modify t fun th => { th with priority := priority }) := by
    intro u hu
    rw [hthr]
    exact hu
  have hinv : InvAt (s2.modify t fun th => { th with priority := priority }) c l := by
    refine ⟨hplaced2.frame ⟨fun u => ?_, rfl, rfl, rfl, rfl, rfl, rfl⟩,
      hq2.frame ⟨rfl, rfl, rfl, rfl, fun u => ?_⟩, ?_⟩
    · rw [hthr]
      exact ⟨rfl, rfl, rfl, rfl⟩
    · rw [hthr]
      exact ⟨rfl, rfl⟩
    · subst hs2
      refine ⟨hdue.held, fun _ => Int.lt_add_one_of_le hq.prevent, ?_⟩
      rw [hthr]
      exact hdue.leaving
  refine (releaseScheduler_spec hinv ?_ fuel).mono (fun s' hs' => ⟨hs'.1, ?_⟩)
    (fun e he => he.mono (Nat.le_of_eq h2) (Nat.le_refl _))
  · show 0 < s2.schedPreventCount
    rw [h1]
    exact Int.lt_add_one_of_le hq.prevent
  · refine Wakeful.trans ?_ (hw.trans hs'.2)
    subst hs2
    exact fun _ h => h

end Nolrem.Task
