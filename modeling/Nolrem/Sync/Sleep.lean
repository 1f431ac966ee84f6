import Nolrem.Sync.Wake

/-!
# The sleep queue

`kernel/core/timer.c` on its own: threads go to sleep, the clock advances and timers are cancelled,
in any order. The list of the code is compared with a table that says when each thread is due.
-/

namespace Nolrem.Sync.Sleep

open Nolrem.Lib

/-! ## The system -/

/-- What happens to the sleep queue -/
inductive SleepEvent where
  /-- `AddThreadToSleepQueue`, by thread `t` -/
  | add (t : Nat) (relative : Bool) (ns : Nat)
  | advance (ns : Nat)
  /-- `CancelTimer` -/
  | cancel (t : Nat)
deriving DecidableEq, Repr

def step (fuel : Nat) (s : Kernel) : SleepEvent → Except Fault Kernel
  | .add t relative ns => do
    let (s, _) ← addThreadToSleepQueue fuel s t relative ns
    .ok s
  | .advance ns => advanceTimer fuel s ns
  | .cancel t => cancelTimer fuel s t

/-- A thread that goes to sleep is not asleep, and its time is a 64-bit number. -/
def Allowed (s : Kernel) : SleepEvent → Prop
  | .add t relative ns => (s.thr t).wakeupTimeNs = 0 ∧
    (if relative then ns + s.nsSinceBoot else ns) < 18446744073709551616
  | _ => True

/-- Nobody sleeps, and nobody waits for a semaphore. -/
structure Booted (s : Kernel) : Prop where
  first : s.firstWaitingTimer = none
  next : s.nextWakeupNs = 0
  thr : ∀ t, (s.thr t).wakeupTimeNs = 0 ∧ (s.thr t).waitingSemOrClot = none

/-! ## What it is for -/

/-- Which threads sleep: until when, and who came first. `tickets` counts those that came. -/
structure Sleepers where
  now : Nat
  due : Nat → Option (Nat × Nat)
  tickets : Nat

/-- The table of a kernel in which nobody sleeps -/
def Sleepers.boot (s : Kernel) : Sleepers := ⟨s.nsSinceBoot, fun _ => none, 0⟩

/-- The time in an event -/
def Sleepers.wakeup (a : Sleepers) (relative : Bool) (ns : Nat) : Nat :=
  if relative then a.now + ns else ns

/-- A thread sleeps until its time, which is later than now, and until it is cancelled. -/
def Sleepers.after (a : Sleepers) : SleepEvent → Sleepers
  | .add t relative ns =>
    if a.wakeup relative ns ≤ a.now then a
    else
      { a with
        due := Function.update a.due t (some (a.wakeup relative ns, a.tickets))
        tickets := a.tickets + 1 }
  | .advance ns =>
    let now := (a.now + ns) % 18446744073709551616
    { a with now, due := fun t => (a.due t).filter fun d => now < d.1 }
  | .cancel t => { a with due := Function.update a.due t none }

/-- An entry of the list -/
@[ext]
structure Sleeper where
  thr : Nat
  time : Nat
  ticket : Nat
deriving DecidableEq, Repr

/-- By time, and for the same time the one that came first -/
def Sleeper.Before (x y : Sleeper) : Prop := x.time < y.time ∨ x.time = y.time ∧ x.ticket < y.ticket

/-- The list of the code holds the sleepers `l`, which are those of the table. -/
structure SleepQueue (s : Kernel) (a : Sleepers) (l : List Sleeper) : Prop where
  chain : Chain (fun t => (s.thr t).nextWaitingTimer) s.firstWaitingTimer (l.map Sleeper.thr)
  mem : ∀ x, x ∈ l ↔ a.due x.thr = some (x.time, x.ticket)
  sorted : l.Pairwise Sleeper.Before
  nextWakeup : s.nextWakeupNs = (l.head?.map Sleeper.time).getD 0
  wakeup : ∀ t, (s.thr t).wakeupTimeNs = ((a.due t).map Prod.fst).getD 0
  blocked : ∀ x ∈ l, (s.thr x.thr).blocked = true
  now : s.nsSinceBoot = a.now
  /-- Nobody is overdue. -/
  future : ∀ x ∈ l, a.now < x.time
  ticket : ∀ x ∈ l, x.ticket < a.tickets
  free : ∀ t, (s.thr t).waitingSemOrClot = none

variable {s s' : Kernel} {a : Sleepers} {l : List Sleeper} {t ns : Nat}

theorem booted_queue (h : Booted s) : SleepQueue s (Sleepers.boot s) [] where
  chain := h.first
  mem := fun x => by simp [Sleepers.boot]
  sorted := List.Pairwise.nil
  nextWakeup := h.next
  wakeup := fun t => (h.thr t).1
  blocked := nofun
  now := rfl
  future := nofun
  ticket := nofun
  free := fun t => (h.thr t).2

namespace SleepQueue

variable (h : SleepQueue s a l)

include h

/-- Each sleeper is on the list once. -/
theorem nodup : (l.map Sleeper.thr).Nodup := h.chain.nodup

theorem time_eq {x : Sleeper} (hx : x ∈ l) : (s.thr x.thr).wakeupTimeNs = x.time := by
  rw [h.wakeup, (h.mem x).mp hx]
  rfl

/-- Who is not on the list has no wakeup time. -/
theorem wakeup_eq_zero_iff : (s.thr t).wakeupTimeNs = 0 ↔ t ∉ l.map Sleeper.thr := by
  constructor
  · intro h0 ht
    obtain ⟨x, hx, rfl⟩ := List.mem_map.mp ht
    have := h.future x hx
    rw [h.time_eq hx] at h0
    omega
  · intro ht
    rw [h.wakeup]
    cases hd : a.due t with
    | none => rfl
    | some d => exact absurd (List.mem_map.mpr ⟨⟨t, d.1, d.2⟩, (h.mem _).mpr hd, rfl⟩) ht

theorem timed : Timed s (l.map Sleeper.thr) where
  chain := h.chain
  mem := fun t => by
    rw [ne_eq, h.wakeup_eq_zero_iff, not_not]

end SleepQueue

/-! ## Going to sleep -/

/-- The place after which the loop of `AddThreadToSleepQueue` puts a thread -/
theorem timerPlace_split {rest : List Sleeper} {p : Sleeper} (fuel : Nat)
    (hc : Chain (fun t => (s.thr t).nextWaitingTimer) (some p.thr) ((p :: rest).map Sleeper.thr))
    (htime : ∀ x ∈ p :: rest, (s.thr x.thr).wakeupTimeNs = x.time) (hp : p.time ≤ ns) :
    Ends (timerPlace s ns fuel p.thr)
      (fun r => ∃ a q b, p :: rest = a ++ q :: b ∧ r = q.thr ∧ (∀ x ∈ a ++ [q], x.time ≤ ns) ∧
        ∀ x ∈ b.head?, ns < x.time)
      (fun e => e = .outOfFuel ∧ fuel ≤ (p :: rest).length) := by
  induction rest generalizing p fuel with
  | nil =>
    have hnext : (s.thr p.thr).nextWaitingTimer = none := hc.2
    cases fuel with
    | zero => simp [timerPlace]
    | succ fuel =>
      rw [timerPlace, hnext]
      refine ⟨[], p, [], rfl, rfl, fun x hx => ?_, by simp⟩
      rw [List.mem_singleton.mp hx]
      exact hp
  | cons y rest ih =>
    have hnext : (s.thr p.thr).nextWaitingTimer = some y.thr := hc.2.1
    cases fuel with
    | zero => simp [timerPlace]
    | succ fuel =>
      rw [timerPlace, hnext]
      dsimp only
      rw [htime y (by simp)]
      split
      · next hle =>
        have hc' : Chain (fun t => (s.thr t).nextWaitingTimer) (some y.thr)
            ((y :: rest).map Sleeper.thr) := ⟨rfl, hc.2.2⟩
        refine (ih fuel hc' (fun x hx => htime x (List.mem_cons_of_mem _ hx)) hle).mono ?_
          fun e he => ⟨he.1, by simpa using he.2⟩
        rintro _ ⟨a, q, b, hab, rfl, ha, hb⟩
        refine ⟨p :: a, q, b, by rw [hab, List.cons_append], rfl, fun x hx => ?_, hb⟩
        rcases List.mem_cons.mp hx with rfl | hx
        · exact hp
        · exact ha x hx
      · next hlt =>
        refine ⟨[], p, y :: rest, rfl, rfl, fun x hx => ?_, fun x hx => ?_⟩
        · rw [List.mem_singleton.mp hx]
          exact hp
        · obtain rfl : y = x := Option.some.inj hx
          omega

/-- A thread is put behind all whose time is not later. -/
theorem insertTimer_split (fuel : Nat)
    (hc : Chain (fun t => (s.thr t).nextWaitingTimer) s.firstWaitingTimer (l.map Sleeper.thr))
    (htime : ∀ x ∈ l, (s.thr x.thr).wakeupTimeNs = x.time) (ht : t ∉ l.map Sleeper.thr) :
    Ends (insertTimer fuel s t ns)
      (fun s' => (∃ a b, l = a ++ b ∧ (∀ x ∈ a, x.time ≤ ns) ∧ (∀ x ∈ b.head?, ns < x.time) ∧
          Chain (fun t => (s'.thr t).nextWaitingTimer) s'.firstWaitingTimer
            (a.map Sleeper.thr ++ t :: b.map Sleeper.thr)) ∧
        s'.nextWakeupNs = s.nextWakeupNs)
      (fun e => e = .outOfFuel ∧ fuel ≤ l.length) := by
  unfold insertTimer
  cases l with
  | nil =>
    have hfirst : s.firstWaitingTimer = none := hc
    rw [hfirst]
    exact ⟨⟨[], [], rfl, nofun, nofun, rfl, by simp⟩, rfl⟩
  | cons p rest =>
    rw [hc.1]
    dsimp only
    rw [htime p (by simp)]
    split
    · next hlt =>
      refine ⟨⟨[], p :: rest, rfl, nofun, fun x hx => ?_, ?_⟩, rfl⟩
      · obtain rfl : p = x := Option.some.inj hx
        exact hlt
      · refine Chain.push_front hc ht ?_ fun u hu => by simp [hu]
        simp [hc.1]
    · next hge =>
      have hc' := hc
      rw [hc.1] at hc'
      refine (timerPlace_split fuel hc' htime (by omega)).bind ?_
      rintro _ ⟨a, q, b, hab, rfl, ha, hb⟩
      refine ⟨⟨a ++ [q], b, by rw [hab]; simp, ha, hb, ?_⟩, rfl⟩
      have hqt : q.thr ≠ t := fun he => ht (List.mem_map.mpr ⟨q, by rw [hab]; simp, he⟩)
      rw [hab, List.map_append, List.map_cons] at hc ht
      rw [List.map_append, List.append_assoc]
      exact Chain.insert_after hc ht (by simp) (by simp [hqt.symm])
        fun u hup hut => by simp [hup, hut]


/-- The state in which `insertTimer` is called -/
def withWakeup (s : Kernel) (t ns : Nat) : Kernel :=
  let s := { s with
    nextWakeupNs := if s.nextWakeupNs = 0 ∨ ns < s.nextWakeupNs then ns else s.nextWakeupNs }
  s.setThr t fun th => { th with wakeupTimeNs := ns }

theorem withWakeup_thr (s : Kernel) (t ns u : Nat) :
    (withWakeup s t ns).thr u =
      { s.thr u with wakeupTimeNs := if u = t then ns else (s.thr u).wakeupTimeNs } := by
  unfold withWakeup
  by_cases hu : u = t
  · subst hu
    simp
  · simp [hu]

/-- The cached time after a thread was put in its place -/
theorem nextWakeup_insert {l₁ l₂ : List Sleeper} (x : Sleeper) (next : Nat)
    (hpos : ∀ y ∈ l₁ ++ l₂, 0 < y.time) (h₁ : ∀ y ∈ l₁, y.time ≤ x.time)
    (h₂ : ∀ y ∈ l₂.head?, x.time < y.time)
    (hnext : next = ((l₁ ++ l₂).head?.map Sleeper.time).getD 0) :
    (if next = 0 ∨ x.time < next then x.time else next) =
      ((l₁ ++ x :: l₂).head?.map Sleeper.time).getD 0 := by
  cases l₁ with
  | nil =>
    cases l₂ with
    | nil => simp at hnext; simp [hnext]
    | cons y l₂ =>
      have := h₂ y rfl
      simp at hnext
      simp [hnext, this]
  | cons y l₁ =>
    have hy := h₁ y (by simp)
    have := hpos y (by simp)
    simp at hnext
    subst hnext
    rw [if_neg (by omega)]
    rfl

/-- Where a new sleeper stands -/
structure Inserted (l l' : List Sleeper) (x : Sleeper) : Prop where
  split : ∃ l₁ l₂, l = l₁ ++ l₂ ∧ l' = l₁ ++ x :: l₂ ∧ (∀ y ∈ l₁, y.time ≤ x.time) ∧
    ∀ y ∈ l₂, x.time < y.time

theorem sorted_insert {l₁ l₂ : List Sleeper} {x : Sleeper} (h : (l₁ ++ l₂).Pairwise Sleeper.Before)
    (h₁ : ∀ y ∈ l₁, y.time ≤ x.time) (h₂ : ∀ y ∈ l₂.head?, x.time < y.time)
    (hticket : ∀ y ∈ l₁ ++ l₂, y.ticket < x.ticket) :
    (l₁ ++ x :: l₂).Pairwise Sleeper.Before ∧ ∀ y ∈ l₂, x.time < y.time := by
  obtain ⟨hs₁, hs₂, hs₁₂⟩ := List.pairwise_append.mp h
  -- the first of the later ones is the earliest of them
  have hlater : ∀ y ∈ l₂, x.time < y.time := by
    intro y hy
    cases l₂ with
    | nil => cases hy
    | cons z l₂ =>
      have hz := h₂ z rfl
      rcases List.mem_cons.mp hy with rfl | hy
      · exact hz
      · rcases (List.pairwise_cons.mp hs₂).1 y hy with hb | ⟨hb, -⟩ <;> omega
  refine ⟨List.pairwise_append.mpr ⟨hs₁, List.pairwise_cons.mpr ⟨fun y hy => .inl (hlater y hy),
    hs₂⟩, fun y hy z hz => ?_⟩, hlater⟩
  rcases List.mem_cons.mp hz with rfl | hz
  · have hle := h₁ y hy
    have := hticket y (List.mem_append_left _ hy)
    rcases Nat.lt_or_eq_of_le hle with hlt | heq
    · exact .inl hlt
    · exact .inr ⟨heq, this⟩
  · exact hs₁₂ y hy z hz

theorem forall_mem_insert {P : Sleeper → Prop} {l₁ l₂ : List Sleeper} {x : Sleeper}
    (hx : P x) (hl : ∀ y ∈ l₁ ++ l₂, P y) : ∀ y ∈ l₁ ++ x :: l₂, P y := by
  rw [List.forall_mem_append] at hl ⊢
  exact ⟨hl.1, List.forall_mem_cons.mpr ⟨hx, hl.2⟩⟩

/-- The list and the record of what was asked for get the same sleeper. -/
theorem mem_insert_iff {due : Nat → Option (Nat × Nat)} {l₁ l₂ : List Sleeper} {w k : Nat}
    (hmem : ∀ x, x ∈ l₁ ++ l₂ ↔ due x.thr = some (x.time, x.ticket))
    (ht : ∀ x ∈ l₁ ++ l₂, x.thr ≠ t) (x : Sleeper) :
    x ∈ l₁ ++ ⟨t, w, k⟩ :: l₂ ↔
      Function.update due t (some (w, k)) x.thr = some (x.time, x.ticket) := by
  by_cases hxt : x.thr = t
  · have hnot : x ∉ l₁ ++ l₂ := fun hin => ht x hin hxt
    rw [List.mem_append, not_or] at hnot
    simp only [List.mem_append, List.mem_cons, hnot.1, hnot.2, or_false, false_or, hxt,
      Function.update_self, Option.some.injEq, Prod.mk.injEq]
    constructor
    · rintro rfl
      exact ⟨rfl, rfl⟩
    · rintro ⟨htime, hticket⟩
      exact Sleeper.ext hxt htime.symm hticket.symm
  · have hne : x ≠ ⟨t, w, k⟩ := fun he => hxt (congrArg Sleeper.thr he)
    rw [Function.update_of_ne hxt, ← hmem]
    simp [hne]

/-- What `AddThreadToSleepQueue` does -/
inductive Added (s : Kernel) (a : Sleepers) (l : List Sleeper) (t : Nat) (relative : Bool)
    (ns : Nat) : Kernel × Bool → Prop
  /-- The time is over already. -/
  | past : a.wakeup relative ns ≤ a.now → Added s a l t relative ns (s, false)
  | asleep {s' : Kernel} {l' : List Sleeper} : a.now < a.wakeup relative ns →
      Inserted l l' ⟨t, a.wakeup relative ns, a.tickets⟩ →
      SleepQueue s' (a.after (.add t relative ns)) l' →
      (∀ u ≠ t, (s'.thr u).blocked = (s.thr u).blocked ∧
        (s'.thr u).blockReturnVal = (s.thr u).blockReturnVal) →
      Added s a l t relative ns (s', true)

theorem SleepQueue.add {relative : Bool} (h : SleepQueue s a l)
    (hok : Allowed s (.add t relative ns)) (fuel : Nat) :
    Ends (addThreadToSleepQueue fuel s t relative ns) (Added s a l t relative ns)
      (fun e => e = .outOfFuel ∧ fuel ≤ l.length) := by
  obtain ⟨hawake, hfits⟩ := hok
  have htime : (if relative then (ns + s.nsSinceBoot) % 18446744073709551616 else ns) =
      a.wakeup relative ns := by
    unfold Sleepers.wakeup
    rw [← h.now]
    split
    · next hr =>
      rw [if_pos hr] at hfits
      omega
    · rfl
  have ht : t ∉ l.map Sleeper.thr := h.wakeup_eq_zero_iff.mp hawake
  unfold addThreadToSleepQueue
  dsimp only
  rw [htime]
  generalize hw : a.wakeup relative ns = w
  split
  · next hpast =>
    rw [h.now] at hpast
    exact .past (by rw [hw]; exact hpast)
  · next hpast =>
    rw [h.now] at hpast
    change Ends ((insertTimer fuel (withWakeup s t w) t w).bind _) _ _
    have hthr := withWakeup_thr s t w
    have hold : ∀ x ∈ l, (withWakeup s t w).thr x.thr = s.thr x.thr := by
      intro x hx
      have hne : x.thr ≠ t := fun he => ht (List.mem_map.mpr ⟨x, hx, he⟩)
      rw [hthr, if_neg hne]
    have hchain : Chain (fun u => ((withWakeup s t w).thr u).nextWaitingTimer)
        (withWakeup s t w).firstWaitingTimer (l.map Sleeper.thr) :=
      h.chain.congr fun u _ => by rw [hthr]
    have hsplit := @insertTimer_split _ _ _ w fuel hchain
      (fun x hx => by rw [hold x hx, h.time_eq hx]) ht
    have hre := @insertTimer_spec _ _ _ w hchain ht fuel
    refine (hsplit.and hre).bind ?_
    rintro s₂ ⟨⟨⟨l₁, l₂, rfl, h₁, h₂, hchain₂⟩, hnext₂⟩, -, hr⟩
    have hx : ∀ x ∈ l₁ ++ l₂, x.thr ≠ t :=
      fun x hx he => ht (List.mem_map.mpr ⟨x, hx, he⟩)
    obtain ⟨hsorted, h₂'⟩ := sorted_insert (x := ⟨t, w, a.tickets⟩) h.sorted h₁ h₂ h.ticket
    -- the other threads are as they were, but for their links
    have hthr₂ : ∀ u, ∃ next, (blockThread s₂ t).thr u =
        { s.thr u with
          nextWaitingTimer := next
          wakeupTimeNs := if u = t then w else (s.thr u).wakeupTimeNs
          blocked := if u = t then true else (s.thr u).blocked
          blockReturnVal := if u = t then 0 else (s.thr u).blockReturnVal } := by
      intro u
      obtain ⟨next, hn⟩ := hr.thr u
      refine ⟨next, ?_⟩
      by_cases hu : u = t
      · subst hu
        simp [blockThread, hn, hthr]
      · simp [blockThread, hn, hthr, hu]
    have hafter : a.after (.add t relative ns) =
        { a with
          due := Function.update a.due t (some (w, a.tickets))
          tickets := a.tickets + 1 } := by
      rw [Sleepers.after, hw, if_neg hpast]
    refine .asleep (by rw [hw]; omega) ⟨l₁, l₂, rfl, by rw [hw], by rw [hw]; exact h₁,
      by rw [hw]; exact h₂'⟩ ?_ fun u hu => ?_
    · rw [hafter]
      constructor
      · rw [List.map_append, List.map_cons]
        refine Chain.congr (fun u _ => ?_) hchain₂
        by_cases hu : u = t <;> simp [blockThread, hu]
      · exact mem_insert_iff h.mem hx
      · exact hsorted
      · refine Eq.trans ?_ (nextWakeup_insert ⟨t, w, a.tickets⟩ s.nextWakeupNs
          (fun y hy => by have := h.future y hy; omega) h₁ h₂ h.nextWakeup)
        exact hnext₂
      · intro u
        obtain ⟨next, hn⟩ := hthr₂ u
        rw [hn]
        by_cases hu : u = t
        · subst hu
          simp
        · dsimp only
          rw [if_neg hu, Function.update_of_ne hu]
          exact h.wakeup u
      · refine forall_mem_insert ?_ fun x hin => ?_
        · obtain ⟨next, hn⟩ := hthr₂ t
          simp [hn]
        · obtain ⟨next, hn⟩ := hthr₂ x.thr
          simpa [hn, hx x hin] using h.blocked x hin
      · exact hr.nsSinceBoot.trans h.now
      · exact forall_mem_insert (Nat.lt_of_not_le hpast) h.future
      · exact forall_mem_insert (Nat.lt_succ_self _) fun x hin =>
          Nat.lt_succ_of_lt (h.ticket x hin)
      · intro u
        obtain ⟨next, hn⟩ := hthr₂ u
        rw [hn]
        exact h.free u
    · obtain ⟨next, hn⟩ := hthr₂ u
      rw [hn]
      simp [hu]

/-! ## Cancelling -/

/-- `CancelTimer` sets the cached time anew. -/
theorem cancelTimer_nextWakeup (fuel : Nat) (ht : (s.thr t).wakeupTimeNs ≠ 0) :
    Ends (cancelTimer fuel s t)
      (fun s' => s'.nextWakeupNs =
        (s'.firstWaitingTimer.map fun f => (s'.thr f).wakeupTimeNs).getD 0)
      (fun _ => True) := by
  unfold cancelTimer
  rw [if_neg ht]
  refine Ends.bind (P := fun _ => True) ?_ fun s₁ _ => ?_
  · cases unlinkTimer fuel s t <;> exact trivial
  · unfold clearTimer
    dsimp only
    generalize s₁.setThr t (fun th => { th with nextWaitingTimer := none, wakeupTimeNs := 0 }) = s₂
    cases s₂.firstWaitingTimer <;> rfl

/-- The list without a thread -/
def dropThread (t : Nat) (l : List Sleeper) : List Sleeper := l.filter fun x => x.thr ≠ t

theorem map_dropThread (hnd : (l.map Sleeper.thr).Nodup) :
    (dropThread t l).map Sleeper.thr = (l.map Sleeper.thr).erase t := by
  rw [hnd.erase_eq_filter, List.filter_map]
  unfold dropThread
  congr 1
  refine List.filter_congr fun x _ => ?_
  by_cases hx : x.thr = t <;> simp [hx]

/-- `CancelTimer` removes the thread and leaves the others in their order. -/
theorem SleepQueue.cancel (h : SleepQueue s a l) (t fuel : Nat) :
    Ends (cancelTimer fuel s t)
      (fun s' => SleepQueue s' (a.after (.cancel t)) (dropThread t l) ∧
        ∀ u, (s'.thr u).blocked = (s.thr u).blocked ∧
          (s'.thr u).blockReturnVal = (s.thr u).blockReturnVal)
      (fun e => e = .outOfFuel ∧ fuel ≤ l.length) := by
  have hmem : ∀ x, x ∈ dropThread t l ↔
      Function.update a.due t none x.thr = some (x.time, x.ticket) := by
    intro x
    unfold dropThread
    rw [List.mem_filter]
    by_cases hx : x.thr = t
    · simp [hx]
    · rw [Function.update_of_ne hx, ← h.mem]
      simp [hx]
  have hsub : ∀ x ∈ dropThread t l, x ∈ l := fun x hx => (List.mem_filter.mp hx).1
  by_cases ht : (s.thr t).wakeupTimeNs = 0
  · -- the thread does not sleep
    unfold cancelTimer
    rw [if_pos ht]
    have hnot := h.wakeup_eq_zero_iff.mp ht
    have hl : dropThread t l = l := List.filter_eq_self.mpr fun x hx => by
      have : x.thr ≠ t := fun he => hnot (List.mem_map.mpr ⟨x, hx, he⟩)
      simpa using this
    rw [hl] at hmem ⊢
    refine ⟨⟨h.chain, hmem, h.sorted, h.nextWakeup, fun u => ?_, h.blocked, h.now, h.future,
      h.ticket, h.free⟩, fun u => ⟨rfl, rfl⟩⟩
    by_cases hu : u = t
    · subst hu
      simpa [Sleepers.after] using ht
    · simpa [Sleepers.after, hu] using h.wakeup u
  · have hspec := (cancelTimer_spec h.timed ht fuel).and (cancelTimer_nextWakeup fuel ht)
    refine hspec.mono ?_ fun e he => ⟨he.1, by simpa using he.2⟩
    rintro s' ⟨⟨htimed, hr⟩, hnext⟩
    rw [← map_dropThread h.nodup] at htimed
    have hwakeup : ∀ u, (s'.thr u).wakeupTimeNs =
        ((Function.update a.due t none u).map Prod.fst).getD 0 := by
      intro u
      obtain ⟨next, hn⟩ := hr.thr u
      rw [hn]
      by_cases hu : u = t
      · subst hu
        simp
      · simpa [hu] using h.wakeup u
    refine ⟨⟨htimed.chain, hmem, h.sorted.filter _, ?_, hwakeup, fun x hx => ?_,
      hr.nsSinceBoot.trans h.now, fun x hx => h.future x (hsub x hx),
      fun x hx => h.ticket x (hsub x hx), fun u => ?_⟩, fun u => ?_⟩
    · rw [hnext, htimed.chain.head_eq]
      cases hd : dropThread t l with
      | nil => rfl
      | cons x rest =>
        have hx := (hmem x).mp (by rw [hd]; exact List.mem_cons_self)
        simp [hwakeup, hx]
    · obtain ⟨next, hn⟩ := hr.thr x.thr
      rw [hn]
      exact h.blocked x (hsub x hx)
    · obtain ⟨next, hn⟩ := hr.thr u
      rw [hn]
      exact h.free u
    · obtain ⟨next, hn⟩ := hr.thr u
      rw [hn]
      exact ⟨rfl, rfl⟩

/-! ## Waking -/

/-- The head of the list, taken off before it is woken -/
def popHead (s : Kernel) (t : Nat) : Kernel :=
  { s.setThr t fun th => { th with wakeupTimeNs := 0 } with
    firstWaitingTimer := (s.thr t).nextWaitingTimer }

/-- Some threads are woken with `ETIMEDOUT`, one after the other. -/
def wakeInOrder (fuel : Nat) : List Nat → Kernel → Except Fault Kernel
  | [], s => .ok s
  | t :: ts, s => do
    let s ← unblockThread fuel (popHead s t) t eTimedOut
    wakeInOrder fuel ts s

/-- What is left of the sleepers at a time -/
def notDue (now : Nat) (l : List Sleeper) : List Sleeper := l.dropWhile fun x => x.time ≤ now

/-- Those that are due -/
def dueNow (now : Nat) (l : List Sleeper) : List Sleeper := l.takeWhile fun x => x.time ≤ now

/-- What the loop of `DoWakeups` needs of the list -/
structure Walks (s : Kernel) (l : List Sleeper) : Prop where
  chain : Chain (fun t => (s.thr t).nextWaitingTimer) s.firstWaitingTimer (l.map Sleeper.thr)
  time : ∀ x ∈ l, (s.thr x.thr).wakeupTimeNs = x.time
  free : ∀ t, (s.thr t).waitingSemOrClot = none

/-- A sleeper that is woken is on no other list, so nothing else is cancelled. -/
theorem unblockThread_popHead (fuel : Nat) (hfree : ∀ u, (s.thr u).waitingSemOrClot = none) :
    unblockThread fuel (popHead s t) t eTimedOut =
      .ok ((popHead s t).setThr t fun th =>
        { th with blocked := false, blockReturnVal := eTimedOut }) := by
  have hsem : ((popHead s t).thr t).waitingSemOrClot = none := by simp [popHead, hfree]
  have htime : ((popHead s t).thr t).wakeupTimeNs = 0 := by simp [popHead]
  unfold unblockThread endSemWait endTimerWait
  rw [if_neg (not_not.mpr hsem)]
  simp only [bind, Except.bind]
  rw [if_neg (not_not.mpr htime)]

/-- What becomes of the threads that are woken, and of the others -/
structure Woken (s s' : Kernel) (ts : List Nat) : Prop where
  woken : ∀ t ∈ ts, (s'.thr t).blocked = false ∧ (s'.thr t).blockReturnVal = eTimedOut ∧
    (s'.thr t).wakeupTimeNs = 0
  others : ∀ t, t ∉ ts → s'.thr t = s.thr t
  free : ∀ t, (s'.thr t).waitingSemOrClot = none
  now : s'.nsSinceBoot = s.nsSinceBoot

/-- The loop of `DoWakeups` wakes those that are due, in the order of the list. -/
theorem doWakeups_walks (now fuel : Nat) (n : Nat) (h : Walks s l) :
    Ends (doWakeups fuel now n s)
      (fun s' => ∃ s₁, wakeInOrder fuel ((dueNow now l).map Sleeper.thr) s = .ok s₁ ∧
        s' = { s₁ with nextWakeupNs := ((notDue now l).head?.map Sleeper.time).getD 0 } ∧
        Walks s₁ (notDue now l) ∧ Woken s s₁ ((dueNow now l).map Sleeper.thr))
      (fun e => e = .outOfFuel ∧ n ≤ (dueNow now l).length) := by
  induction l generalizing s n with
  | nil =>
    cases n with
    | zero => exact ⟨rfl, Nat.zero_le _⟩
    | succ n =>
      have hfirst : s.firstWaitingTimer = none := h.chain
      rw [doWakeups, hfirst]
      exact ⟨s, rfl, by rw [hfirst]; rfl, h, fun _ hu => absurd hu List.not_mem_nil,
        fun _ _ => rfl, h.free, rfl⟩
  | cons x rest ih =>
    cases n with
    | zero => exact ⟨rfl, Nat.zero_le _⟩
    | succ n =>
      have htime := h.time x List.mem_cons_self
      have hx : x.thr ∉ rest.map Sleeper.thr := (List.nodup_cons.mp h.chain.nodup).1
      rw [doWakeups, h.chain.1]
      dsimp only
      rw [htime]
      split
      · next hdue =>
        -- the head is due
        have hdueNow : dueNow now (x :: rest) = x :: dueNow now rest :=
          List.takeWhile_cons_of_pos (by simpa using hdue)
        have hnotDue : notDue now (x :: rest) = notDue now rest :=
          List.dropWhile_cons_of_pos (by simpa using hdue)
        have hunblock := unblockThread_popHead (t := x.thr) fuel h.free
        change Ends ((unblockThread fuel (popHead s x.thr) x.thr eTimedOut).bind _) _ _
        rw [hunblock, hdueNow, hnotDue]
        generalize hs₂ : ((popHead s x.thr).setThr x.thr fun th =>
          { th with blocked := false, blockReturnVal := eTimedOut }) = s₂ at hunblock ⊢
        have hself : s₂.thr x.thr =
            { s.thr x.thr with
              wakeupTimeNs := 0
              blocked := false
              blockReturnVal := eTimedOut } := by
          rw [← hs₂]
          simp [popHead]
        have hother : ∀ u ≠ x.thr, s₂.thr u = s.thr u := by
          intro u hu
          rw [← hs₂]
          simp [popHead, hu]
        have hwalks : Walks s₂ rest := by
          refine ⟨?_, fun y hy => ?_, fun u => ?_⟩
          · have hfirst : s₂.firstWaitingTimer = (s.thr x.thr).nextWaitingTimer := by
              rw [← hs₂]
              rfl
            rw [hfirst]
            refine Chain.congr (fun u hu => ?_) h.chain.2
            rw [hother u fun he => hx (he ▸ hu)]
          · rw [hother y.thr fun he => hx (List.mem_map.mpr ⟨y, hy, he⟩)]
            exact h.time y (List.mem_cons_of_mem _ hy)
          · by_cases hu : u = x.thr
            · rw [hu, hself]
              exact h.free x.thr
            · rw [hother u hu]
              exact h.free u
        refine (ih n hwalks).mono ?_ fun e he => ⟨he.1, Nat.succ_le_succ he.2⟩
        rintro s' ⟨s₁, hwake, rfl, hrest, hwoken⟩
        refine ⟨s₁, ?_, rfl, hrest, fun u hu => ?_, fun u hu => ?_, hwoken.free, ?_⟩
        · rw [List.map_cons, wakeInOrder, hunblock]
          exact hwake
        · rcases List.mem_cons.mp hu with rfl | hu
          · have hnot : x.thr ∉ (dueNow now rest).map Sleeper.thr := fun hin =>
              hx (((List.takeWhile_sublist _).map Sleeper.thr).subset hin)
            rw [hwoken.others _ hnot, hself]
            exact ⟨rfl, rfl, rfl⟩
          · exact hwoken.woken u hu
        · rw [List.map_cons, List.mem_cons, not_or] at hu
          rw [hwoken.others u hu.2, hother u hu.1]
        · rw [hwoken.now, ← hs₂]
          rfl
      · next hdue =>
        have hdueNow : dueNow now (x :: rest) = [] :=
          List.takeWhile_cons_of_neg (by simpa using hdue)
        have hnotDue : notDue now (x :: rest) = x :: rest :=
          List.dropWhile_cons_of_neg (by simpa using hdue)
        rw [hdueNow, hnotDue]
        exact ⟨s, rfl, by rw [h.chain.1]; rfl, h, fun _ hu => absurd hu List.not_mem_nil,
          fun _ _ => rfl, h.free, rfl⟩

/-- In a sorted list those that are due come first. -/
theorem dueNow_eq_filter {now : Nat} (h : l.Pairwise Sleeper.Before) :
    dueNow now l = l.filter (fun x => x.time ≤ now) ∧
      notDue now l = l.filter fun x => now < x.time := by
  induction l with
  | nil => exact ⟨rfl, rfl⟩
  | cons x rest ih =>
    obtain ⟨hx, hrest⟩ := List.pairwise_cons.mp h
    obtain ⟨ih₁, ih₂⟩ := ih hrest
    unfold dueNow at ih₁
    unfold notDue at ih₂
    unfold dueNow notDue
    by_cases hdue : x.time ≤ now
    · have hlt : ¬ now < x.time := by omega
      simp only [List.takeWhile_cons, List.dropWhile_cons, List.filter_cons, hdue, hlt, decide_true,
        decide_false, if_true, ih₁, ih₂, Bool.false_eq_true, if_false, and_self]
    · have hlt : now < x.time := by omega
      have hlate : ∀ y ∈ rest, now < y.time := by
        intro y hy
        rcases hx y hy with hb | ⟨hb, -⟩ <;> omega
      have hnone : rest.filter (fun y => decide (y.time ≤ now)) = [] :=
        List.filter_eq_nil_iff.mpr fun y hy => by have := hlate y hy; simpa using this
      have hall : rest.filter (fun y => decide (now < y.time)) = rest :=
        List.filter_eq_self.mpr fun y hy => by simpa using hlate y hy
      simp only [List.takeWhile_cons, List.dropWhile_cons, List.filter_cons, hdue, hlt, decide_true,
        decide_false, if_true, hnone, hall, Bool.false_eq_true, if_false, and_self]

/-- What `AdvanceTimer` does: those that are due are woken in the order of the list. -/
structure Advanced (fuel : Nat) (s : Kernel) (a : Sleepers) (l : List Sleeper) (ns : Nat)
    (s' : Kernel) : Prop where
  queue : SleepQueue s' (a.after (.advance ns)) (notDue (a.after (.advance ns)).now l)
  order : ∃ s₁, wakeInOrder fuel ((dueNow (a.after (.advance ns)).now l).map Sleeper.thr)
      { s with nsSinceBoot := (a.after (.advance ns)).now } = .ok s₁ ∧
    s' = { s₁ with nextWakeupNs := s'.nextWakeupNs }
  woken : ∀ x ∈ l, x.time ≤ (a.after (.advance ns)).now →
    (s'.thr x.thr).blocked = false ∧ (s'.thr x.thr).blockReturnVal = eTimedOut
  others : ∀ t, (∀ x ∈ l, x.thr = t → (a.after (.advance ns)).now < x.time) → s'.thr t = s.thr t

theorem mem_map_dueNow {now : Nat} (h : SleepQueue s a l) {w k : Nat}
    (hd : a.due t = some (w, k)) : t ∈ (dueNow now l).map Sleeper.thr ↔ w ≤ now := by
  rw [(dueNow_eq_filter h.sorted).1]
  constructor
  · intro ht
    obtain ⟨x, hx, rfl⟩ := List.mem_map.mp ht
    rw [List.mem_filter, h.mem, hd] at hx
    have htime : w = x.time := (Prod.ext_iff.mp (Option.some.inj hx.1)).1
    rw [htime]
    exact of_decide_eq_true hx.2
  · intro hle
    refine List.mem_map.mpr ⟨⟨t, w, k⟩, List.mem_filter.mpr ⟨?_, decide_eq_true hle⟩, rfl⟩
    exact (h.mem ⟨t, w, k⟩).mpr hd

/-- Who is due loses the wakeup time, and the others keep it. -/
theorem SleepQueue.wakeup_due (h : SleepQueue s a l) (now t : Nat) :
    (((a.due t).filter fun d => now < d.1).map Prod.fst).getD 0 =
      if t ∈ (dueNow now l).map Sleeper.thr then 0 else (s.thr t).wakeupTimeNs := by
  rw [h.wakeup]
  cases hd : a.due t with
  | none => simp
  | some d =>
    have hin : t ∈ (dueNow now l).map Sleeper.thr ↔ d.1 ≤ now := mem_map_dueNow h hd
    by_cases hle : d.1 ≤ now
    · rw [if_pos (hin.mpr hle), Option.filter_some, if_neg (by simpa using hle)]
      rfl
    · rw [if_neg (mt hin.mp hle), Option.filter_some,
        if_pos (decide_eq_true (Nat.lt_of_not_le hle))]

/-- Nobody is due before the head of the list is. -/
theorem SleepQueue.nobody_due (h : SleepQueue s a l) {now : Nat}
    (hgate : ¬ (s.nextWakeupNs ≠ 0 ∧ s.nextWakeupNs ≤ now)) :
    dueNow now l = [] ∧ notDue now l = l := by
  cases l with
  | nil => exact ⟨rfl, rfl⟩
  | cons x rest =>
    have hnext : s.nextWakeupNs = x.time := h.nextWakeup
    have hpos := h.future x List.mem_cons_self
    have hnot : ¬ x.time ≤ now := by omega
    exact ⟨List.takeWhile_cons_of_neg (by simpa using hnot),
      List.dropWhile_cons_of_neg (by simpa using hnot)⟩

theorem SleepQueue.advance (h : SleepQueue s a l) (ns fuel : Nat) :
    Ends (advanceTimer fuel s ns) (Advanced fuel s a l ns)
      (fun e => e = .outOfFuel ∧ fuel ≤ l.length) := by
  have hnow : (s.nsSinceBoot + ns) % 18446744073709551616 = (a.after (.advance ns)).now := by
    rw [h.now]
    rfl
  generalize hc : (a.after (.advance ns)).now = c at hnow
  have hdue : (a.after (.advance ns)).due = fun t => (a.due t).filter fun d => c < d.1 := by
    rw [← hc]
    rfl
  obtain ⟨hdueNow, hnotDue⟩ := @dueNow_eq_filter l c h.sorted
  have hmem : ∀ x, x ∈ notDue c l ↔
      (a.after (.advance ns)).due x.thr = some (x.time, x.ticket) := by
    intro x
    rw [hnotDue, List.mem_filter, hdue, h.mem, Option.filter_eq_some_iff]
  have hsub : ∀ x ∈ notDue c l, x ∈ l := fun x hx => (List.dropWhile_sublist _).subset hx
  have hwakeup : ∀ t, (((a.after (.advance ns)).due t).map Prod.fst).getD 0 =
      if t ∈ (dueNow c l).map Sleeper.thr then 0 else (s.thr t).wakeupTimeNs := by
    intro t
    rw [congrFun hdue t]
    exact h.wakeup_due c t
  have hwalks : Walks { s with nsSinceBoot := c } l :=
    ⟨h.chain, fun x hx => h.time_eq hx, h.free⟩
  have hlater : ∀ x ∈ notDue c l, c < x.time := by
    intro x hx
    rw [hnotDue, List.mem_filter] at hx
    exact of_decide_eq_true hx.2
  have hundue : ∀ x ∈ notDue c l, x.thr ∉ (dueNow c l).map Sleeper.thr := by
    intro x hx ht
    have hle := (mem_map_dueNow h ((h.mem x).mp (hsub x hx))).mp ht
    have := hlater x hx
    omega
  unfold advanceTimer
  dsimp only
  rw [hnow]
  split
  · -- somebody may be due
    refine (doWakeups_walks c fuel fuel hwalks).mono ?_ fun e he =>
      ⟨he.1, Nat.le_trans he.2 (List.takeWhile_sublist _).length_le⟩
    rintro s' ⟨s₁, hwake, rfl, hrest, hwoken⟩
    refine ⟨?_, ⟨s₁, by rw [hc]; exact hwake, rfl⟩, fun x hx hle => ?_, fun t ht => ?_⟩
    · rw [hc]
      refine ⟨hrest.chain, hmem, h.sorted.sublist (List.dropWhile_sublist _), rfl, fun t => ?_,
        fun x hx => ?_, by rw [hc]; exact hwoken.now, fun x hx => by rw [hc]; exact hlater x hx,
        fun x hx => h.ticket x (hsub x hx), hrest.free⟩
      · rw [hwakeup]
        split
        · next ht => exact (hwoken.woken t ht).2.2
        · next ht => exact congrArg Thread.wakeupTimeNs (hwoken.others t ht)
      · rw [show s₁.thr x.thr = s.thr x.thr from hwoken.others _ (hundue x hx)]
        exact h.blocked x (hsub x hx)
    · rw [hc] at hle
      have hin : x.thr ∈ (dueNow c l).map Sleeper.thr :=
        (mem_map_dueNow h ((h.mem x).mp hx)).mpr hle
      exact ⟨(hwoken.woken _ hin).1, (hwoken.woken _ hin).2.1⟩
    · refine hwoken.others t fun hin => ?_
      obtain ⟨x, hx, rfl⟩ := List.mem_map.mp hin
      rw [hdueNow, List.mem_filter] at hx
      have := ht x hx.1 rfl
      have := of_decide_eq_true hx.2
      omega
  · -- the head of the list, and so everybody, sleeps longer
    next hgate =>
    have hnobody := h.nobody_due hgate
    rw [hnobody.1] at hwakeup
    rw [hnobody.2] at hmem hlater
    refine ⟨?_, ⟨{ s with nsSinceBoot := c }, by rw [hc, hnobody.1]; rfl, rfl⟩, fun x hx hle => ?_,
      fun t ht => rfl⟩
    · rw [hc, hnobody.2]
      exact ⟨h.chain, hmem, h.sorted, h.nextWakeup, fun t => (hwakeup t).symm, h.blocked, hc.symm,
        fun x hx => by rw [hc]; exact hlater x hx, h.ticket, h.free⟩
    · have := hlater x hx
      rw [hc] at hle
      omega

/-! ## Runs -/

/-- What an event does to the list and to the threads -/
def Effect (fuel : Nat) (s : Kernel) (a : Sleepers) (l : List Sleeper) (s' : Kernel)
    (l' : List Sleeper) : SleepEvent → Prop
  | .add t relative ns =>
    if a.wakeup relative ns ≤ a.now then s' = s ∧ l' = l
    else
      Inserted l l' ⟨t, a.wakeup relative ns, a.tickets⟩ ∧
        ∀ u ≠ t, (s'.thr u).blocked = (s.thr u).blocked ∧
          (s'.thr u).blockReturnVal = (s.thr u).blockReturnVal
  | .advance ns =>
    l' = notDue (a.after (.advance ns)).now l ∧ Advanced fuel s a l ns s'
  | .cancel t =>
    l' = dropThread t l ∧ ∀ u, (s'.thr u).blocked = (s.thr u).blocked ∧
      (s'.thr u).blockReturnVal = (s.thr u).blockReturnVal

theorem SleepQueue.step {e : SleepEvent} (h : SleepQueue s a l) (hok : Allowed s e) (fuel : Nat) :
    Ends (step fuel s e)
      (fun s' => ∃ l', SleepQueue s' (a.after e) l' ∧ Effect fuel s a l s' l' e)
      (fun e => e = .outOfFuel ∧ fuel ≤ l.length) := by
  cases e with
  | add t relative ns =>
    refine (h.add hok fuel).bind ?_
    rintro ⟨s', b⟩ (hpast | ⟨hlater, hins, hqueue, hothers⟩)
    · refine ⟨l, ?_, ?_⟩
      · rw [Sleepers.after, if_pos hpast]
        exact h
      · rw [Effect, if_pos hpast]
        exact ⟨rfl, rfl⟩
    · refine ⟨_, hqueue, ?_⟩
      rw [Effect, if_neg (by omega)]
      exact ⟨hins, hothers⟩
  | advance ns =>
    exact (h.advance ns fuel).mono (fun _ hs => ⟨_, hs.queue, rfl, hs⟩) fun _ he => he
  | cancel t =>
    exact (h.cancel t fuel).mono (fun _ hs => ⟨_, hs.1, rfl, hs.2⟩) fun _ he => he

/-- Events one after the other, each with as much fuel as it needs -/
inductive Run : Kernel → List SleepEvent → Kernel → Prop
  | nil (s : Kernel) : Run s [] s
  | cons {s s₁ s' : Kernel} {e : SleepEvent} {es : List SleepEvent} (fuel : Nat) :
      Allowed s e → step fuel s e = .ok s₁ → Run s₁ es s' → Run s (e :: es) s'

/-- The table after some events -/
def Sleepers.run (a : Sleepers) (es : List SleepEvent) : Sleepers := es.foldl Sleepers.after a

variable {es : List SleepEvent}

theorem SleepQueue.run (h : SleepQueue s a l) (hrun : Run s es s') :
    ∃ l', SleepQueue s' (a.run es) l' := by
  induction hrun generalizing a l with
  | nil s => exact ⟨l, h⟩
  | cons fuel hok hstep _ ih =>
    obtain ⟨l₁, h₁, -⟩ := (h.step hok fuel).of_ok hstep
    exact ih h₁

/-- Only a cancellation or the clock ends a sleep. -/
theorem SleepQueue.due_after {e : SleepEvent} {w k : Nat} (h : SleepQueue s a l)
    (hok : Allowed s e) (hd : a.due t = some (w, k)) (hcancel : e ≠ .cancel t)
    (hclock : (a.after e).now < w) : (a.after e).due t = some (w, k) := by
  cases e with
  | add u relative ns =>
    have hut : t ≠ u := by
      rintro rfl
      have hw := h.wakeup t
      have hpos := h.future ⟨t, w, k⟩ ((h.mem _).mpr hd)
      rw [hok.1, hd] at hw
      simp only [Option.map_some, Option.getD_some] at hw
      omega
    unfold Sleepers.after
    dsimp only
    split
    · exact hd
    · exact (Function.update_of_ne hut _ _).trans hd
  | advance ns =>
    refine (congrArg (Option.filter _) hd).trans ?_
    exact if_pos (decide_eq_true hclock)
  | cancel u =>
    have hut : t ≠ u := fun he => hcancel (he ▸ rfl)
    exact (Function.update_of_ne hut _ _).trans hd

/-- A thread sleeps as long as the clock has not come to its time. -/
theorem SleepQueue.due_run {w k : Nat} (h : SleepQueue s a l) (hrun : Run s es s')
    (hd : a.due t = some (w, k)) (hcancel : .cancel t ∉ es)
    (hclock : ∀ es₁, es₁ <+: es → (a.run es₁).now < w) : (a.run es).due t = some (w, k) := by
  induction hrun generalizing a l with
  | nil s => exact hd
  | @cons s s₁ s' e es fuel hok hstep _ ih =>
    rw [List.mem_cons, not_or] at hcancel
    obtain ⟨l₁, h₁, -⟩ := (h.step hok fuel).of_ok hstep
    have hnow : (a.after e).now < w := hclock [e] ⟨es, rfl⟩
    refine ih h₁ (h.due_after hok hd (Ne.symm hcancel.1) hnow) hcancel.2 fun es₁ hes => ?_
    exact hclock (e :: es₁) (List.cons_prefix_cons.mpr ⟨rfl, hes⟩)

/-- Who sleeps until `w` is woken when the clock comes to `w`. -/
theorem SleepQueue.woken {w k fuel : Nat} (h : SleepQueue s a l) (hd : a.due t = some (w, k))
    (hstep : Sleep.step fuel s (.advance ns) = .ok s') (hw : w ≤ s'.nsSinceBoot) :
    (s'.thr t).blocked = false ∧ (s'.thr t).blockReturnVal = eTimedOut ∧
      (s'.thr t).wakeupTimeNs = 0 := by
  have hadv : Advanced fuel s a l ns s' := (h.advance ns fuel).of_ok hstep
  have hnow := hadv.queue.now
  rw [hnow] at hw
  obtain ⟨hblocked, hret⟩ := hadv.woken ⟨t, w, k⟩ ((h.mem _).mpr hd) hw
  have hnone : (a.after (.advance ns)).due t = none :=
    (congrArg (Option.filter _) hd).trans (if_neg fun hlt => by
      have := of_decide_eq_true hlt
      exact Nat.not_lt.mpr hw this)
  refine ⟨hblocked, hret, ?_⟩
  rw [hadv.queue.wakeup, hnone]
  rfl

/--
The sleep queue after any events.

Every further event returns and keeps the list as the table says, and a thread that sleeps until
`w` and is not cancelled sleeps until the first `AdvanceTimer` that brings the clock to `w`.
-/
theorem sleep_queue_run {s₀ : Kernel} (h0 : Booted s₀) (hrun : Run s₀ es s) :
    ∃ l, SleepQueue s ((Sleepers.boot s₀).run es) l ∧
      (∀ e, Allowed s e → ∀ fuel, l.length < fuel → ∃ s', step fuel s e = .ok s') ∧
      (∀ e fuel s', Allowed s e → step fuel s e = .ok s' →
        ∃ l', SleepQueue s' (((Sleepers.boot s₀).run es).after e) l' ∧
          Effect fuel s ((Sleepers.boot s₀).run es) l s' l' e) ∧
      ∀ t w k es' s', ((Sleepers.boot s₀).run es).due t = some (w, k) → Run s es' s' →
        .cancel t ∉ es' →
        (∀ es₁, es₁ <+: es' → (((Sleepers.boot s₀).run es).run es₁).now < w) →
        ((s'.thr t).blocked = true ∧ (s'.thr t).wakeupTimeNs = w) ∧
          ∀ ns fuel s₂, step fuel s' (.advance ns) = .ok s₂ → w ≤ s₂.nsSinceBoot →
            (s₂.thr t).blocked = false ∧ (s₂.thr t).blockReturnVal = eTimedOut ∧
              (s₂.thr t).wakeupTimeNs = 0 := by
  obtain ⟨l, h⟩ := (booted_queue h0).run hrun
  refine ⟨l, h, fun e hok fuel hfuel => ?_, fun e fuel s' hok hstep => ?_,
    fun t w k es' s' hd hrun' hcancel hclock => ?_⟩
  · obtain ⟨s', hs', -⟩ := (h.step hok fuel).exists_ok fun e he => by omega
    exact ⟨s', hs'⟩
  · exact (h.step hok fuel).of_ok hstep
  · have hd' := h.due_run hrun' hd hcancel hclock
    obtain ⟨l', h'⟩ := h.run hrun'
    have hx : ⟨t, w, k⟩ ∈ l' := (h'.mem ⟨t, w, k⟩).mpr hd'
    exact ⟨⟨h'.blocked _ hx, h'.time_eq hx⟩, fun ns fuel s₂ hstep hw => h'.woken hd' hstep hw⟩

/-- A kernel at boot in which nobody sleeps -/
def awake : Kernel where
  thr := fun _ => ⟨false, none, none, none, 0, 0⟩
  sem := fun _ => ⟨0, 1, none, none⟩
  clot := fun _ => none
  schedInit := true
  nsSinceBoot := 0
  nextWakeupNs := 0
  firstWaitingTimer := none

theorem sleep_queue_run_two : ∃ s, Run awake [.add 1 true 5, .add 2 false 3] s ∧
    ∀ fuel s', step fuel s (.advance 4) = .ok s' → 3 ≤ s'.nsSinceBoot →
      (s'.thr 2).blocked = false ∧ (s'.thr 2).blockReturnVal = eTimedOut := by
  have hrun : ∃ s, Run awake [.add 1 true 5, .add 2 false 3] s :=
    ⟨_, .cons 3 ⟨rfl, by decide⟩ rfl (.cons 3 ⟨rfl, by decide⟩ rfl (.nil _))⟩
  obtain ⟨s, hs⟩ := hrun
  obtain ⟨-, -, -, -, hsleep⟩ := sleep_queue_run ⟨rfl, rfl, fun _ => ⟨rfl, rfl⟩⟩ hs
  refine ⟨s, hs, fun fuel s' hstep hclock => ?_⟩
  obtain ⟨-, hwoken⟩ := hsleep 2 3 1 [] s rfl (.nil s) nofun fun es₁ hes => by
    rw [List.prefix_nil.mp hes]
    decide
  exact ⟨(hwoken 4 fuel s' hstep hclock).1, (hwoken 4 fuel s' hstep hclock).2.1⟩

end Nolrem.Sync.Sleep
