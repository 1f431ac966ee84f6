import Nolrem.Sync.Waits

/-!
# Waking

`UnblockThread`, and the calls that wake threads with it: `ReleaseSem`, `AdvanceTimer` and
`AbandonSem`.
-/

namespace Nolrem.Sync

open Nolrem.Lib

/-- The invariant, with the lists. No list is longer than `n`. -/
structure InvAt (s : Kernel) (q : Nat → List WaitObj) (tl : List Nat) (n : Nat) : Prop where
  waits : Waits s q
  timed : Timed s tl
  asleep : ∀ t, (s.thr t).waitingSemOrClot ≠ none ∨ (s.thr t).wakeupTimeNs ≠ 0 →
    (s.thr t).blocked = true
  init : s.schedInit = true
  bound : ∀ k, (q k).length ≤ n
  boundTimer : tl.length ≤ n

theorem InvAt.owner_blocked {s : Kernel} {q : Nat → List WaitObj} {tl : List Nat} {n k : Nat}
    {w : WaitObj} (h : InvAt s q tl n) (hw : w ∈ q k) : (s.thr (ownerOf s w)).blocked = true :=
  h.asleep _ (Or.inl (h.waits.mem_waitsOn hw).2)

/-- From `s` to `s'` some threads were woken, each with a value that `R` allows. -/
structure Woke (R : Nat → Int → Prop) (s : Kernel) (q : Nat → List WaitObj) (s' : Kernel)
    (q' : Nat → List WaitObj) : Prop where
  /-- The others keep their order. -/
  queue : ∀ k, q' k = (q k).filter fun w => (s'.thr (ownerOf s w)).blocked
  owner : ∀ k, ∀ w ∈ q' k, ownerOf s' w = ownerOf s w
  asleep : ∀ t, (s'.thr t).blocked = true → (s.thr t).blocked = true ∧
    (s'.thr t).waitingSemOrClot = (s.thr t).waitingSemOrClot ∧
    (s'.thr t).wakeupTimeNs = (s.thr t).wakeupTimeNs ∧
    (s'.thr t).blockReturnVal = (s.thr t).blockReturnVal ∧ waitsOn s' t = waitsOn s t
  awake : ∀ t, (s.thr t).blocked = false → (s'.thr t).blocked = false ∧
    (s'.thr t).blockReturnVal = (s.thr t).blockReturnVal
  woken : ∀ t, (s.thr t).blocked = true → (s'.thr t).blocked = false →
    R t (s'.thr t).blockReturnVal
  sem : ∀ k, (s'.sem k).count = (s.sem k).count ∧ (s'.sem k).max = (s.sem k).max

namespace Woke

variable {R R' : Nat → Int → Prop} {s s' s'' : Kernel} {q q' q'' : Nat → List WaitObj}

theorem refl {tl : List Nat} {n : Nat} (h : InvAt s q tl n) : Woke R s q s q := by
  refine ⟨fun k => ?_, fun _ _ _ => rfl, fun t ht => ⟨ht, rfl, rfl, rfl, rfl⟩,
    fun t ht => ⟨ht, rfl⟩, fun t ht ht' => ?_, fun _ => ⟨rfl, rfl⟩⟩
  · rw [eq_comm, List.filter_eq_self]
    exact fun w hw => h.owner_blocked hw
  · simp [ht] at ht'

theorem trans (h : Woke R s q s' q') (h' : Woke R s' q' s'' q'') : Woke R s q s'' q'' := by
  have hmem : ∀ k, ∀ w ∈ q'' k, w ∈ q' k := by
    intro k w hw
    rw [h'.queue] at hw
    exact List.mem_of_mem_filter hw
  refine ⟨fun k => ?_, fun k w hw => ?_, fun t ht => ?_, fun t ht => ?_, fun t ht ht' => ?_,
    fun k => ?_⟩
  · rw [h'.queue, h.queue, List.filter_filter]
    refine List.filter_congr fun w hw => ?_
    -- a thread that is still blocked at the end was blocked in between
    cases h1 : (s''.thr (ownerOf s w)).blocked with
    | true =>
      have hb := (h'.asleep _ h1).1
      have hw' : w ∈ q' k := by
        rw [h.queue]
        exact List.mem_filter.mpr ⟨hw, hb⟩
      rw [h.owner k w hw', h1, hb]
      rfl
    | false =>
      cases h2 : (s'.thr (ownerOf s w)).blocked with
      | false => simp
      | true =>
        have hw' : w ∈ q' k := by
          rw [h.queue]
          exact List.mem_filter.mpr ⟨hw, h2⟩
        rw [h.owner k w hw', h1]
        rfl
  · rw [h'.owner k w hw, h.owner k w (hmem k w hw)]
  · obtain ⟨h1, h2, h3, h4, h5⟩ := h'.asleep t ht
    obtain ⟨h6, h7, h8, h9, h10⟩ := h.asleep t h1
    exact ⟨h6, h2.trans h7, h3.trans h8, h4.trans h9, h5.trans h10⟩
  · obtain ⟨h1, h2⟩ := h.awake t ht
    obtain ⟨h3, h4⟩ := h'.awake t h1
    exact ⟨h3, h4.trans h2⟩
  · cases h1 : (s'.thr t).blocked with
    | true => exact h'.woken t h1 ht'
    | false =>
      rw [(h'.awake t h1).2]
      exact h.woken t ht h1
  · exact ⟨(h'.sem k).1.trans (h.sem k).1, (h'.sem k).2.trans (h.sem k).2⟩

theorem mono (h : Woke R s q s' q') (hR : ∀ t r, R t r → R' t r) : Woke R' s q s' q' :=
  ⟨h.queue, h.owner, h.asleep, h.awake, fun t ht ht' => hR _ _ (h.woken t ht ht'), h.sem⟩

end Woke

/-! ## `UnblockThread` -/

theorem endSemWait_spec {s : Kernel} {q : Nat → List WaitObj} {t n : Nat} (h : Waits s q)
    (hn : ∀ k, (q k).length ≤ n) (fuel : Nat) :
    Ends (endSemWait fuel s t)
      (fun s' => Waits s' (fun k => without s t (q k)) ∧ SemsLeft s s' t)
      (fun e => e = .outOfFuel ∧ fuel ≤ n) := by
  unfold endSemWait
  split
  · next hwait => exact cancelSems_spec h hwait hn fuel
  · next hwait =>
    have hnone : (s.thr t).waitingSemOrClot = none := by simpa using hwait
    have hq : (fun k => without s t (q k)) = q := by
      funext k
      refine without_of_not_mem fun w hw ho => ?_
      have := (h.mem_waitsOn hw).2
      rw [ho] at this
      exact this hnone
    rw [ends_ok, hq]
    refine ⟨h, fun u => ⟨(s.thr u).nextWaitingSem, ?_⟩, fun _ => ⟨rfl, rfl⟩,
      fun c cl hc => ⟨cl, hc, rfl, rfl⟩, rfl, rfl, rfl⟩
    split
    · next hu =>
      subst hu
      rw [← hnone]
    · rfl

theorem endTimerWait_spec {s : Kernel} {tl : List Nat} {t : Nat} (h : Timed s tl) (fuel : Nat) :
    Ends (endTimerWait fuel s t) (fun s' => Timed s' (tl.erase t) ∧ Retimed s s' t 0)
      (fun e => e = .outOfFuel ∧ fuel ≤ tl.length) := by
  unfold endTimerWait
  split
  · next ht => exact cancelTimer_spec h ht fuel
  · next ht =>
    have hzero : (s.thr t).wakeupTimeNs = 0 := by simpa using ht
    have htl : t ∉ tl := fun htl => (h.mem t).mp htl hzero
    rw [ends_ok, List.erase_of_not_mem htl]
    refine ⟨h, fun u => ⟨(s.thr u).nextWaitingTimer, ?_⟩, rfl, rfl, rfl, rfl⟩
    split
    · next hu =>
      subst hu
      rw [← hzero]
    · rfl

theorem Timed.left {s s' : Kernel} {tl : List Nat} {t : Nat} (h : Timed s tl)
    (hl : SemsLeft s s' t) : Timed s' tl := by
  refine ⟨?_, fun u => ?_⟩
  · rw [hl.firstWaitingTimer]
    refine h.chain.congr fun u _ => ?_
    obtain ⟨n, hn⟩ := hl.thr u
    simp [hn]
  · obtain ⟨n, hn⟩ := hl.thr u
    rw [h.mem, hn]

theorem Waits.retimed {s s' : Kernel} {q : Nat → List WaitObj} {t wakeup : Nat} (h : Waits s q)
    (hr : Retimed s s' t wakeup) : Waits s' q := by
  have hwait : ∀ u, (s'.thr u).waitingSemOrClot = (s.thr u).waitingSemOrClot := by
    intro u
    obtain ⟨n, hn⟩ := hr.thr u
    simp [hn]
  refine ⟨hr.queues h.queues, fun u k => ?_, ?_, ?_, fun u c => ?_⟩
  · rw [hwait]
    exact h.thread_mem u k
  · rw [hr.clot]
    exact h.clot_mem
  · intro c cl
    rw [hr.clot, hwait]
    exact h.clot_ok c cl
  · rw [hr.clot, hwait]
    exact h.clot_live u c

/-- `blocked` and `block_return_val` say nothing about the lists. -/
theorem Waits.setBlocked {s : Kernel} {q : Nat → List WaitObj} (h : Waits s q) (t : Nat)
    (b : Bool) (r : Int) :
    Waits (s.setThr t fun th => { th with blocked := b, blockReturnVal := r }) q := by
  have hthr : ∀ u, (s.setThr t fun th => { th with blocked := b, blockReturnVal := r }).thr u =
      { s.thr u with
        blocked := if u = t then b else (s.thr u).blocked
        blockReturnVal := if u = t then r else (s.thr u).blockReturnVal } := by
    intro u
    by_cases hu : u = t
    · subst hu
      simp
    · simp [hu]
  have hnext : nextIn (s.setThr t fun th => { th with blocked := b, blockReturnVal := r }) =
      nextIn s := by
    funext k w
    cases w with
    | thread u => simp only [nextIn, hthr]
    | clot c => rfl
  refine ⟨⟨?_, h.queues.last, fun k w hw => ?_, h.queues.bare, fun k w w' hw hw' ho => ?_⟩,
    fun u k => ?_, h.clot_mem, fun c cl hc => ?_, fun u c hc => ?_⟩
  · rw [hnext]
    exact h.queues.chain
  · have := h.queues.linkable k w hw
    cases w <;> exact this
  · refine h.queues.owners k w w' hw hw' ?_
    cases w <;> cases w' <;> exact ho
  · rw [hthr]
    exact h.thread_mem u k
  · rw [hthr]
    exact h.clot_ok c cl hc
  · rw [hthr] at hc
    exact h.clot_live u c hc

theorem Timed.setBlocked {s : Kernel} {tl : List Nat} (h : Timed s tl) (t : Nat) (b : Bool)
    (r : Int) : Timed (s.setThr t fun th => { th with blocked := b, blockReturnVal := r }) tl := by
  refine ⟨h.chain.congr fun u _ => ?_, fun u => ?_⟩
  · by_cases hu : u = t <;> simp [hu]
  · rw [h.mem]
    by_cases hu : u = t <;> simp [hu]

theorem unblockThread_spec {s : Kernel} {q : Nat → List WaitObj} {tl : List Nat} {t n : Nat}
    (h : InvAt s q tl n) (ht : (s.thr t).blocked = true) (retv : Int) (fuel : Nat) :
    Ends (unblockThread fuel s t retv)
      (fun s' => InvAt s' (fun k => without s t (q k)) (tl.erase t) n ∧
        Woke (fun u r => u = t ∧ r = retv) s q s' (fun k => without s t (q k)) ∧
        (s'.thr t).blocked = false ∧ (s'.thr t).blockReturnVal = retv ∧
        ∀ u, u ≠ t → (s'.thr u).blocked = (s.thr u).blocked)
      (fun e => e = .outOfFuel ∧ fuel ≤ n) := by
  unfold unblockThread
  refine (endSemWait_spec h.waits h.bound fuel).bind ?_
  rintro s1 ⟨hw1, hl⟩
  refine ((endTimerWait_spec (h.timed.left hl) fuel).mono (fun _ h => h)
    fun e he => ⟨he.1, Nat.le_trans he.2 h.boundTimer⟩).bind ?_
  rintro s2 ⟨ht2, hr⟩
  rw [ends_ok]
  generalize hs' : (s2.setThr t fun th => { th with blocked := false, blockReturnVal := retv }) = s'
  have hwaits : Waits s' fun k => without s t (q k) := by
    rw [← hs']
    exact (hw1.retimed hr).setBlocked t false retv
  have htimed : Timed s' (tl.erase t) := by
    rw [← hs']
    exact ht2.setBlocked t false retv
  -- what has become of each thread
  have hself : (s'.thr t).blocked = false ∧ (s'.thr t).blockReturnVal = retv := by
    rw [← hs']
    simp
  have hother : ∀ u, u ≠ t → (s'.thr u).blocked = (s.thr u).blocked ∧
      (s'.thr u).waitingSemOrClot = (s.thr u).waitingSemOrClot ∧
      (s'.thr u).wakeupTimeNs = (s.thr u).wakeupTimeNs ∧
      (s'.thr u).blockReturnVal = (s.thr u).blockReturnVal := by
    intro u hu
    obtain ⟨n1, hn1⟩ := hl.thr u
    obtain ⟨n2, hn2⟩ := hr.thr u
    rw [← hs']
    simp [hu, hn2, hn1]
  have hclear : (s'.thr t).waitingSemOrClot = none ∧ (s'.thr t).wakeupTimeNs = 0 := by
    obtain ⟨n1, hn1⟩ := hl.thr t
    obtain ⟨n2, hn2⟩ := hr.thr t
    rw [← hs']
    simp [hn2, hn1]
  have hclot : ∀ c cl', s'.clot c = some cl' → ∃ cl, s.clot c = some cl ∧ cl'.thr = cl.thr ∧
      cl'.sems = cl.sems := by
    intro c cl' hc
    refine hl.clot c cl' ?_
    rw [← hr.clot]
    rw [← hs'] at hc
    exact hc
  have hsem : ∀ k, (s'.sem k).count = (s.sem k).count ∧ (s'.sem k).max = (s.sem k).max := by
    intro k
    rw [← hs']
    show (s2.sem k).count = _ ∧ (s2.sem k).max = _
    rw [hr.sem]
    exact hl.sem k
  refine ⟨⟨hwaits, htimed, fun u hu => ?_, ?_, fun k => ?_, ?_⟩,
    ⟨fun k => ?_, fun k w hw => ?_, fun u hu => ?_, fun u hu => ?_, fun u hu hu' => ?_, hsem⟩,
    hself.1, hself.2, fun u hu => (hother u hu).1⟩
  · by_cases hut : u = t
    · subst hut
      simp [hclear] at hu
    · obtain ⟨h1, h2, h3, -⟩ := hother u hut
      rw [h1]
      rw [h2, h3] at hu
      exact h.asleep u hu
  · rw [← hs']
    exact hr.schedInit.trans (hl.schedInit.trans h.init)
  · exact Nat.le_trans (List.length_filter_le _ _) (h.bound k)
  · exact Nat.le_trans List.length_erase_le h.boundTimer
  · refine List.filter_congr fun w hw => ?_
    by_cases ho : ownerOf s w = t
    · simp [ho, hself.1]
    · rw [(hother _ ho).1, h.owner_blocked hw]
      simp [ho]
  · cases w with
    | thread u => rfl
    | clot c =>
      obtain ⟨cl', hc, -⟩ := (hwaits.clot_mem c k).mp hw
      obtain ⟨cl, h1, h2, -⟩ := hclot c cl' hc
      simp [ownerOf, hc, h1, h2]
  · have hut : u ≠ t := by
      rintro rfl
      simp [hself.1] at hu
    obtain ⟨h1, h2, h3, h4⟩ := hother u hut
    refine ⟨by rw [← h1, hu], h2, h3, h4, ?_⟩
    unfold waitsOn
    rw [h2]
    cases hon : (s.thr u).waitingSemOrClot with
    | none => rfl
    | some on =>
      cases on with
      | sem k => rfl
      | clot c =>
        obtain ⟨cl', hc', -⟩ := hwaits.clot_live u c (by rw [h2, hon])
        obtain ⟨cl, h5, -, h7⟩ := hclot c cl' hc'
        simp [hc', h5, h7]
  · have hut : u ≠ t := by
      rintro rfl
      simp [ht] at hu
    obtain ⟨h1, -, -, h4⟩ := hother u hut
    exact ⟨by rw [h1, hu], h4⟩
  · have hut : u = t := by
      by_contra hut
      rw [(hother u hut).1, hu] at hu'
      simp at hu'
    exact ⟨hut, by rw [hut, hself.2]⟩

/-! ## Timer expiry -/

/-- `DoWakeups` takes the first thread off the timer list before it wakes it. -/
theorem InvAt.popTimer {s : Kernel} {q : Nat → List WaitObj} {t : Nat} {tl : List Nat} {n : Nat}
    (h : InvAt s q (t :: tl) n) :
    InvAt { s.setThr t fun th => { th with wakeupTimeNs := 0 } with
      firstWaitingTimer := (s.thr t).nextWaitingTimer } q tl n := by
  have hthr : ∀ u, (s.setThr t fun th => { th with wakeupTimeNs := 0 }).thr u =
      { s.thr u with wakeupTimeNs := if u = t then 0 else (s.thr u).wakeupTimeNs } := by
    intro u
    by_cases hu : u = t
    · subst hu
      simp
    · simp [hu]
  have hr : Retimed s { s.setThr t fun th => { th with wakeupTimeNs := 0 } with
      firstWaitingTimer := (s.thr t).nextWaitingTimer } t 0 :=
    ⟨fun u => ⟨(s.thr u).nextWaitingTimer, hthr u⟩, rfl, rfl, rfl, rfl⟩
  obtain ⟨htl, hnd⟩ := List.nodup_cons.mp h.timed.chain.nodup
  refine ⟨h.waits.retimed hr, ⟨?_, fun u => ?_⟩, fun u hu => ?_, h.init, h.bound, ?_⟩
  · exact Chain.congr (fun u _ => by simp only [hthr]) h.timed.chain.2
  · have := h.timed.mem u
    simp only [hthr]
    by_cases hut : u = t
    · subst hut
      simp [htl]
    · simpa [hut] using this
  · simp only [hthr] at hu ⊢
    refine h.asleep u (hu.imp id fun hu => ?_)
    split at hu
    · exact absurd rfl hu
    · exact hu
  · have := h.boundTimer
    simp only [List.length_cons] at this
    omega

theorem Woke.popTimer {R : Nat → Int → Prop} {s s' : Kernel} {q q' : Nat → List WaitObj}
    {t : Nat} {f : Option Nat} (h : Woke R { s.setThr t fun th => { th with wakeupTimeNs := 0 } with
      firstWaitingTimer := f } q s' q') (ht : (s'.thr t).blocked = false) : Woke R s q s' q' := by
  have hthr : ∀ u, (s.setThr t fun th => { th with wakeupTimeNs := 0 }).thr u =
      { s.thr u with wakeupTimeNs := if u = t then 0 else (s.thr u).wakeupTimeNs } := by
    intro u
    by_cases hu : u = t
    · subst hu
      simp
    · simp [hu]
  have howner : ownerOf { s.setThr t fun th => { th with wakeupTimeNs := 0 } with
      firstWaitingTimer := f } = ownerOf s := by
    funext w
    cases w <;> rfl
  refine ⟨fun k => ?_, fun k w hw => ?_, fun u hu => ?_, fun u hu => ?_, fun u hu hu' => ?_, h.sem⟩
  · rw [h.queue, howner]
  · rw [h.owner k w hw, howner]
  · have hut : u ≠ t := by
      rintro rfl
      simp [ht] at hu
    obtain ⟨h1, h2, h3, h4, h5⟩ := h.asleep u hu
    simp only [hthr] at h1 h2 h3 h4
    rw [if_neg hut] at h3
    refine ⟨h1, h2, h3, h4, h5.trans ?_⟩
    unfold waitsOn
    simp only [hthr]
    rfl
  · have := h.awake u
    simp only [hthr] at this
    exact this hu
  · have := h.woken u
    simp only [hthr] at this
    exact this hu hu'

theorem doWakeups_spec {fuel ns n : Nat} : ∀ (m : Nat) {s : Kernel} {q : Nat → List WaitObj}
    {tl : List Nat}, InvAt s q tl n →
    Ends (doWakeups fuel ns m s)
      (fun s' => ∃ q' tl', InvAt s' q' tl' n ∧ Woke (fun _ r => r = eTimedOut) s q s' q')
      (fun e => e = .outOfFuel ∧ (fuel ≤ n ∨ m ≤ tl.length)) := by
  intro m
  induction m with
  | zero =>
    intro s q tl _
    simp [doWakeups]
  | succ m ih =>
    intro s q tl h
    have hwoke : Woke (fun _ r => r = eTimedOut) s q s q := Woke.refl h
    have htime : ∀ x, InvAt { s with nextWakeupNs := x } q tl n ∧
        Woke (fun _ r => r = eTimedOut) s q { s with nextWakeupNs := x } q := by
      intro x
      have hr : Retimed s { s with nextWakeupNs := x } 0 (s.thr 0).wakeupTimeNs := by
        refine ⟨fun u => ⟨(s.thr u).nextWaitingTimer, ?_⟩, rfl, rfl, rfl, rfl⟩
        split
        · next hu => rw [hu]
        · rfl
      exact ⟨⟨h.waits.retimed hr, ⟨h.timed.chain, h.timed.mem⟩, h.asleep, h.init, h.bound,
        h.boundTimer⟩, ⟨hwoke.queue, fun k w _ => by cases w <;> rfl, hwoke.asleep, hwoke.awake,
        hwoke.woken, hwoke.sem⟩⟩
    have hchain := h.timed.chain
    unfold doWakeups
    split
    · exact ⟨q, tl, htime 0⟩
    · next t hfirst =>
      split
      · cases tl with
        | nil =>
          rw [hfirst] at hchain
          exact absurd (chain_nil.mp hchain) (by simp)
        | cons u tl =>
          obtain rfl : t = u := by
            have := hchain.1
            rw [hfirst] at this
            exact Option.some.inj this
          have hpop := h.popTimer
          have htl : t ∉ tl := (List.nodup_cons.mp hchain.nodup).1
          have hblocked := h.asleep t (Or.inr ((h.timed.mem t).mp (by simp)))
          refine ((unblockThread_spec hpop (by simpa using hblocked) eTimedOut fuel).mono
            (fun _ h => h) fun e he => ⟨he.1, Or.inl he.2⟩).bind ?_
          rintro s1 ⟨hinv, hw1, ht1, -, -⟩
          rw [List.erase_of_not_mem htl] at hinv
          refine (ih hinv).mono ?_ fun e he => ⟨he.1, he.2.imp id fun hm => ?_⟩
          · rintro s2 ⟨q', tl', hinv2, hw2⟩
            refine ⟨q', tl', hinv2, Woke.trans ?_ hw2⟩
            exact (hw1.popTimer ht1).mono fun _ _ h => h.2
          · simpa using hm
      · exact ⟨q, tl, htime _⟩

theorem advanceTimer_spec {s : Kernel} {q : Nat → List WaitObj} {tl : List Nat} {n : Nat}
    (h : InvAt s q tl n) (ns fuel : Nat) :
    Ends (advanceTimer fuel s ns)
      (fun s' => ∃ q' tl', InvAt s' q' tl' n ∧ Woke (fun _ r => r = eTimedOut) s q s' q')
      (fun e => e = .outOfFuel ∧ fuel ≤ n) := by
  have hset : ∀ x, InvAt { s with nsSinceBoot := x } q tl n ∧ ∀ s' q',
      Woke (fun _ r => r = eTimedOut) { s with nsSinceBoot := x } q s' q' →
      Woke (fun _ r => r = eTimedOut) s q s' q' := by
    intro x
    have hnext : nextIn { s with nsSinceBoot := x } = nextIn s := by
      funext k w
      cases w <;> rfl
    have howner : ownerOf { s with nsSinceBoot := x } = ownerOf s := by
      funext w
      cases w <;> rfl
    refine ⟨⟨⟨⟨?_, h.waits.queues.last, fun k w hw => ?_, h.waits.queues.bare, ?_⟩,
      h.waits.thread_mem, h.waits.clot_mem, h.waits.clot_ok, h.waits.clot_live⟩,
      ⟨h.timed.chain, h.timed.mem⟩, h.asleep, h.init, h.bound, h.boundTimer⟩,
      fun s' q' hw => ⟨?_, ?_, hw.asleep, hw.awake, hw.woken, hw.sem⟩⟩
    · rw [hnext]
      exact h.waits.queues.chain
    · have := h.waits.queues.linkable k w hw
      cases w <;> exact this
    · rw [howner]
      exact h.waits.queues.owners
    · rw [← howner]
      exact hw.queue
    · rw [← howner]
      exact hw.owner
  obtain ⟨hinv, hback⟩ := hset ((s.nsSinceBoot + ns) % 18446744073709551616)
  unfold advanceTimer
  simp only
  split
  · refine (doWakeups_spec fuel hinv).mono ?_ fun e he =>
      ⟨he.1, he.2.elim id fun hm => Nat.le_trans hm h.boundTimer⟩
    rintro s' ⟨q', tl', h1, h2⟩
    exact ⟨q', tl', h1, hback _ _ h2⟩
  · exact ⟨q, tl, hinv, hback _ _ (Woke.refl hinv)⟩

/-! ## Abandoning a semaphore -/

theorem abandonSemLocked_spec {fuel k n : Nat} : ∀ (m : Nat) {s : Kernel}
    {q : Nat → List WaitObj} {tl : List Nat}, InvAt s q tl n →
    Ends (abandonSemLocked fuel k m s)
      (fun s' => ∃ q' tl', InvAt s' q' tl' n ∧ Woke (fun _ r => r = eAbandoned) s q s' q' ∧
        q' k = [])
      (fun e => e = .outOfFuel ∧ (fuel ≤ n ∨ m ≤ (q k).length)) := by
  intro m
  induction m with
  | zero =>
    intro s q tl _
    simp [abandonSemLocked]
  | succ m ih =>
    intro s q tl h
    have hchain := h.waits.queues.chain k
    unfold abandonSemLocked
    split
    · next hstart => exact ⟨q, tl, h, Woke.refl h, hchain.start_eq_none_iff.mp hstart⟩
    · next head hstart =>
      cases hq : q k with
      | nil =>
        rw [hq, hstart] at hchain
        exact absurd (chain_nil.mp hchain) (by simp)
      | cons w l =>
        rw [hq] at hchain
        obtain rfl : head = w := by
          have := hchain.1
          rw [hstart] at this
          exact Option.some.inj this
        have hmem : head ∈ q k := by simp [hq]
        rw [waiterOf_eq (h.waits.queues.linkable k head hmem)]
        show Ends (unblockThread fuel s (ownerOf s head) eAbandoned >>= fun s1 =>
          leaveHead fuel s1 k (ownerOf s head) head >>= fun s2 =>
            abandonSemLocked fuel k m s2) _ _
        refine ((unblockThread_spec h (h.owner_blocked hmem) eAbandoned fuel).mono
          (fun _ h => h) fun e he => ⟨he.1, Or.inl he.2⟩).bind ?_
        rintro s1 ⟨hinv, hw1, -, -, -⟩
        have hgone : head ∉ without s (ownerOf s head) (q k) := fun hm =>
          (mem_without.mp hm).2 rfl
        have hstart1 : (s1.sem k).waitingListStart ≠ some head := by
          intro hs1
          have hhead := (hinv.waits.queues.chain k).head_eq
          rw [hs1] at hhead
          exact hgone (List.mem_of_mem_head? hhead.symm)
        have hleave : leaveHead fuel s1 k (ownerOf s head) head = .ok s1 := by
          unfold leaveHead
          rw [if_neg hstart1]
        rw [hleave]
        have hlen : (without s (ownerOf s head) (q k)).length ≤ l.length := by
          refine Nat.le_of_eq ?_
          rw [h.waits.queues.without_eq_erase hmem, hq, List.erase_cons_head]
        refine (ih hinv).mono ?_ fun e he => ⟨he.1, he.2.imp id fun hm => ?_⟩
        · rintro s2 ⟨q', tl', hinv2, hw2, hq2⟩
          exact ⟨q', tl', hinv2, (hw1.mono fun _ _ h => h.2).trans hw2, hq2⟩
        · simp only [List.length_cons]
          omega

theorem abandonSem_spec {s : Kernel} {q : Nat → List WaitObj} {tl : List Nat} {n : Nat}
    (h : InvAt s q tl n) (k fuel : Nat) :
    Ends (abandonSem fuel s k)
      (fun s' => ∃ q' tl', InvAt s' q' tl' n ∧ Woke (fun _ r => r = eAbandoned) s q s' q' ∧
        q' k = [])
      (fun e => e = .outOfFuel ∧ fuel ≤ n) :=
  (abandonSemLocked_spec fuel h).mono (fun _ h => h) fun _ he =>
    ⟨he.1, he.2.elim id fun hm => Nat.le_trans hm (h.bound k)⟩

end Nolrem.Sync
