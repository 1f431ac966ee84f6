import Mathlib.Algebra.GroupWithZero.Nat
import Nolrem.Sync.Sleep

/-!
# The calls that sleep

`SleepUntil`, `SleepNano` and `SleepMilli` compute in 64 bits when the sleep ends. A sleep whose end
does not fit ends too early.
-/

namespace Nolrem.Sync.Sleep

open Nolrem.Lib

/-- `SleepUntil`, called by thread `t` -/
def sleepUntil (fuel : Nat) (s : Kernel) (t : Nat) (ns : UInt64) : Except Fault Kernel := do
  let (s, _) ← addThreadToSleepQueue fuel s t false ns.toNat
  .ok s

/-- `SleepNano` -/
def sleepNano (fuel : Nat) (s : Kernel) (t : Nat) (ns : UInt64) : Except Fault Kernel := do
  let (s, _) ← addThreadToSleepQueue fuel s t true ns.toNat
  .ok s

/-- `SleepMilli` -/
def sleepMilli (fuel : Nat) (s : Kernel) (t : Nat) (ms : UInt64) : Except Fault Kernel := do
  let (s, _) ← addThreadToSleepQueue fuel s t true (ms * 1000000).toNat
  .ok s

inductive Request where
  | sleepUntil (ns : UInt64)
  | sleepNano (ns : UInt64)
  | sleepMilli (ms : UInt64)
deriving DecidableEq, Repr

def sleep (fuel : Nat) (s : Kernel) (t : Nat) : Request → Except Fault Kernel
  | .sleepUntil ns => sleepUntil fuel s t ns
  | .sleepNano ns => sleepNano fuel s t ns
  | .sleepMilli ms => sleepMilli fuel s t ms

/-- A call, a tick of the clock, or `CancelTimer` -/
inductive CallEvent where
  | call (t : Nat) (r : Request)
  | advance (ns : UInt64)
  | cancel (t : Nat)
deriving DecidableEq, Repr

def callStep (fuel : Nat) (s : Kernel) : CallEvent → Except Fault Kernel
  | .call t r => sleep fuel s t r
  | .advance ns => advanceTimer fuel s ns.toNat
  | .cancel t => cancelTimer fuel s t

/-- A thread that makes a call is running. -/
def Running (s : Kernel) : CallEvent → Prop
  | .call t _ => (s.thr t).blocked = false
  | _ => True

/-- Events one after the other, each with as much fuel as it needs -/
inductive CallRun : Kernel → List CallEvent → Kernel → Prop
  | nil (s : Kernel) : CallRun s [] s
  | cons {s s₁ s' : Kernel} {e : CallEvent} {es : List CallEvent} (fuel : Nat) :
      Running s e → callStep fuel s e = .ok s₁ → CallRun s₁ es s' → CallRun s (e :: es) s'

/-- How far the clock goes -/
def CallEvent.elapsed : CallEvent → Nat
  | .advance ns => ns.toNat
  | _ => 0

def elapsed (es : List CallEvent) : Nat := (es.map CallEvent.elapsed).sum

/-- How far the clock has to go before a call made at `now` may return -/
def Request.need (now : Nat) : Request → Nat
  | .sleepUntil ns => ns.toNat - now
  | .sleepNano ns => ns.toNat
  | .sleepMilli ms => ms.toNat * 1000000

/-- However the system goes on, the call returns after the time that was asked for. -/
def NeverEarly (s : Kernel) (t : Nat) (r : Request) : Prop :=
  ∀ fuel s₁, sleep fuel s t r = .ok s₁ → ∀ es s₂, CallRun s₁ es s₂ → (s₂.thr t).blocked = false →
    r.need s.nsSinceBoot ≤ elapsed es

/-- The end of the sleep is a 64-bit number. -/
def Request.Fits (now : Nat) : Request → Prop
  | .sleepUntil _ => True
  | .sleepNano ns => ns.toNat + now < 18446744073709551616
  | .sleepMilli ms => ms.toNat * 1000000 + now < 18446744073709551616

instance (now : Nat) (r : Request) : Decidable (r.Fits now) := by
  cases r <;> unfold Request.Fits <;> infer_instance

/-! ## The calls and the sleep queue -/

/-- The end that the code computes -/
def Request.endTime (now : Nat) : Request → Nat
  | .sleepUntil ns => ns.toNat
  | .sleepNano ns => (ns.toNat + now) % 18446744073709551616
  | .sleepMilli ms => ((ms * 1000000).toNat + now) % 18446744073709551616

/-- What an event is to the sleep queue -/
def CallEvent.onQueue (now : Nat) : CallEvent → SleepEvent
  | .call t r => .add t false (r.endTime now)
  | .advance ns => .advance ns.toNat
  | .cancel t => .cancel t

variable {s s' : Kernel} {a : Sleepers} {l : List Sleeper} {t : Nat} {e : CallEvent}
  {es : List CallEvent}

/-- A relative time is an absolute one once it is added to the clock. -/
theorem addThreadToSleepQueue_relative (fuel : Nat) (s : Kernel) (t ns : Nat) :
    addThreadToSleepQueue fuel s t true ns =
      addThreadToSleepQueue fuel s t false ((ns + s.nsSinceBoot) % 18446744073709551616) := by
  unfold addThreadToSleepQueue
  simp only [if_true, Bool.false_eq_true, if_false]

theorem callStep_eq (fuel : Nat) (s : Kernel) (e : CallEvent) :
    callStep fuel s e = step fuel s (e.onQueue s.nsSinceBoot) := by
  cases e with
  | call t r =>
    cases r with
    | sleepUntil ns => rfl
    | sleepNano ns =>
      rw [callStep, sleep, sleepNano, addThreadToSleepQueue_relative]
      rfl
    | sleepMilli ms =>
      rw [callStep, sleep, sleepMilli, addThreadToSleepQueue_relative]
      rfl
  | advance ns => rfl
  | cancel t => rfl

theorem Request.endTime_lt (now : Nat) (r : Request) : r.endTime now < 18446744073709551616 := by
  cases r with
  | sleepUntil ns => exact ns.toNat_lt
  | sleepNano ns => exact Nat.mod_lt _ (by decide)
  | sleepMilli ms => exact Nat.mod_lt _ (by decide)

/-- A running thread is not on the list. -/
theorem SleepQueue.awake (h : SleepQueue s a l) (ht : (s.thr t).blocked = false) :
    (s.thr t).wakeupTimeNs = 0 := by
  rw [h.wakeup_eq_zero_iff]
  intro hin
  obtain ⟨x, hx, rfl⟩ := List.mem_map.mp hin
  rw [h.blocked x hx] at ht
  cases ht

theorem SleepQueue.allowed (h : SleepQueue s a l) (hrun : Running s e) :
    Allowed s (e.onQueue s.nsSinceBoot) := by
  cases e with
  | call t r => exact ⟨h.awake hrun, r.endTime_lt _⟩
  | advance ns => trivial
  | cancel t => trivial

theorem SleepQueue.callStep (h : SleepQueue s a l) (hrun : Running s e) (fuel : Nat) :
    Ends (callStep fuel s e)
      (fun s' => ∃ l', SleepQueue s' (a.after (e.onQueue s.nsSinceBoot)) l' ∧
        Effect fuel s a l s' l' (e.onQueue s.nsSinceBoot))
      (fun e => e = .outOfFuel ∧ fuel ≤ l.length) := by
  rw [callStep_eq]
  exact h.step (h.allowed hrun) fuel

theorem Sleepers.now_after_le (a : Sleepers) (now : Nat) (e : CallEvent) :
    (a.after (e.onQueue now)).now ≤ a.now + e.elapsed := by
  cases e with
  | call t r =>
    simp only [CallEvent.onQueue, Sleepers.after, CallEvent.elapsed, Nat.add_zero]
    split <;> exact Nat.le_refl _
  | advance ns => exact Nat.mod_le _ _
  | cancel t => exact Nat.le_refl _

/-! ## Who sleeps is woken by the clock only -/

theorem Sleepers.after_add (a : Sleepers) {t w : Nat} (hw : a.now < w) :
    a.after (.add t false w) =
      { a with due := Function.update a.due t (some (w, a.tickets)), tickets := a.tickets + 1 } :=
  if_neg (Nat.not_le.mpr hw)

/-- A thread that sleeps until `w`, or for ever -/
def AsleepUntil (s : Kernel) (a : Sleepers) (t w : Nat) : Prop :=
  (s.thr t).blocked = true ∧ ∀ d, a.due t = some d → d.1 = w

theorem SleepQueue.asleep_step {w fuel : Nat} (h : SleepQueue s a l) (hrun : Running s e)
    (hstep : Sleep.callStep fuel s e = .ok s') (hasleep : AsleepUntil s a t w) :
    AsleepUntil s' (a.after (e.onQueue s.nsSinceBoot)) t w ∨
      w ≤ (a.after (e.onQueue s.nsSinceBoot)).now := by
  obtain ⟨l', -, heffect⟩ := (h.callStep hrun fuel).of_ok hstep
  obtain ⟨hblocked, hdue⟩ := hasleep
  cases e with
  | call u r =>
    left
    have hut : t ≠ u := by
      rintro rfl
      rw [show (s.thr t).blocked = false from hrun] at hblocked
      cases hblocked
    simp only [CallEvent.onQueue, Effect, Sleepers.after] at heffect ⊢
    split at heffect
    · next hpast =>
      rw [if_pos hpast, heffect.1]
      exact ⟨hblocked, hdue⟩
    · next hlater =>
      rw [if_neg hlater]
      refine ⟨(heffect.2 t hut).1.trans hblocked, fun d hd => hdue d ?_⟩
      exact (Function.update_of_ne hut _ _).symm.trans hd
  | advance ns =>
    obtain ⟨-, hadv⟩ := heffect
    by_cases hw : w ≤ (a.after (.advance ns.toNat)).now
    · exact .inr hw
    · left
      refine ⟨?_, fun d hd => hdue d (Option.filter_eq_some_iff.mp hd).1⟩
      rw [hadv.others t fun x hx hxt => ?_]
      · exact hblocked
      · have : x.time = w := hdue (x.time, x.ticket) (hxt ▸ (h.mem x).mp hx)
        omega
  | cancel u =>
    left
    refine ⟨(heffect.2 t).1.trans hblocked, fun d hd => hdue d ?_⟩
    have hd' : Function.update a.due u none t = some d := hd
    by_cases hut : t = u
    · rw [hut, Function.update_self] at hd'
      cases hd'
    · rwa [Function.update_of_ne hut] at hd'

/-- A thread that sleeps until `w` runs again only when the clock has come to `w`. -/
theorem SleepQueue.asleep_run {w : Nat} (h : SleepQueue s a l) (hrun : CallRun s es s')
    (hasleep : AsleepUntil s a t w) (hwoken : (s'.thr t).blocked = false) :
    w ≤ a.now + elapsed es := by
  induction hrun generalizing a l with
  | nil s =>
    rw [hasleep.1] at hwoken
    cases hwoken
  | @cons s s₁ s' e es fuel hok hstep _ ih =>
    obtain ⟨l₁, h₁, -⟩ := (h.callStep hok fuel).of_ok hstep
    have hnow := a.now_after_le s.nsSinceBoot e
    have hsum : elapsed (e :: es) = e.elapsed + elapsed es := by simp [elapsed]
    rcases h.asleep_step hok hstep hasleep with hasleep' | hcome
    · have := ih h₁ hasleep' hwoken
      omega
    · omega

theorem SleepQueue.callRun (h : SleepQueue s a l) (hclock : s.nsSinceBoot < 18446744073709551616)
    (hrun : CallRun s es s') :
    s'.nsSinceBoot < 18446744073709551616 ∧ ∃ a' l', SleepQueue s' a' l' := by
  induction hrun generalizing a l with
  | nil s => exact ⟨hclock, a, l, h⟩
  | @cons s s₁ s' e es fuel hok hstep _ ih =>
    obtain ⟨l₁, h₁, -⟩ := (h.callStep hok fuel).of_ok hstep
    refine ih h₁ ?_
    rw [h.now] at hclock
    rw [h₁.now]
    cases e with
    | call u r =>
      simp only [CallEvent.onQueue, Sleepers.after]
      split <;> exact hclock
    | advance ns => exact Nat.mod_lt _ (by decide)
    | cancel u => exact hclock

/-! ## When a sleep is long enough -/

/-- The end that the code computes is late enough exactly if the right end fits. -/
theorem Request.fits_iff {now : Nat} (r : Request) (hnow : now < 18446744073709551616) :
    r.Fits now ↔ now + r.need now ≤ max now (r.endTime now) := by
  cases r with
  | sleepUntil ns =>
    simp only [Fits, need, endTime, true_iff]
    omega
  | sleepNano ns =>
    have := ns.toNat_lt
    simp only [Fits, need, endTime]
    omega
  | sleepMilli ms =>
    have hmul : (ms * 1000000).toNat = ms.toNat * 1000000 % 18446744073709551616 :=
      UInt64.toNat_mul ms 1000000
    simp only [Fits, need, endTime, hmul]
    omega

/-- Asleep until its time, the thread is woken by one step of the clock. -/
theorem SleepQueue.sleeps {r : Request} (h : SleepQueue s a l) (ht : (s.thr t).blocked = false)
    (hnow : s.nsSinceBoot < 18446744073709551616)
    (hlater : s.nsSinceBoot < r.endTime s.nsSinceBoot) :
    ∃ fuel s₁ s₂, sleep fuel s t r = .ok s₁ ∧
      CallRun s₁ [.advance (UInt64.ofNat (r.endTime s.nsSinceBoot - s.nsSinceBoot))] s₂ ∧
      (s₂.thr t).blocked = false := by
  generalize hw : r.endTime s.nsSinceBoot = w at hlater ⊢
  have hw64 : w < 18446744073709551616 := by
    rw [← hw]
    exact r.endTime_lt _
  have hd : UInt64.toNat (.ofNat (w - s.nsSinceBoot)) = w - s.nsSinceBoot :=
    UInt64.toNat_ofNat_of_lt' (by change w - s.nsSinceBoot < 18446744073709551616; omega)
  have hcall : Running s (.call t r) := ht
  obtain ⟨s₁, hs₁, l₁, h₁, -⟩ := (h.callStep hcall (l.length + 1)).exists_ok fun e he => by omega
  rw [CallEvent.onQueue, hw, a.after_add (by rw [← h.now]; exact hlater)] at h₁
  obtain ⟨s₂, hs₂, h₂⟩ := (h₁.advance (w - s.nsSinceBoot) (l₁.length + 1)).exists_ok
    fun e he => by omega
  have hclock : w ≤ s₂.nsSinceBoot := by
    rw [h₂.queue.now]
    change w ≤ (a.now + (w - s.nsSinceBoot)) % 18446744073709551616
    rw [← h.now]
    omega
  have hrun : Sleep.callStep (l₁.length + 1) s₁ (.advance (.ofNat (w - s.nsSinceBoot))) =
      .ok s₂ := by
    rw [Sleep.callStep, hd]
    exact hs₂
  refine ⟨_, s₁, s₂, hs₁, .cons _ trivial hrun (.nil _), ?_⟩
  exact (h₁.woken (Function.update_self _ _ _) hs₂ hclock).1

/--
A sleep never ends early exactly if its end fits in 64 bits.

The call is made in any state that a run from boot reaches, and the threads, the clock and
`CancelTimer` do what they like afterwards.
-/
theorem sleep_never_early_iff {s₀ : Kernel} {r : Request} (h0 : Booted s₀)
    (hclock : s₀.nsSinceBoot < 18446744073709551616) (hrun : CallRun s₀ es s)
    (ht : (s.thr t).blocked = false) : NeverEarly s t r ↔ r.Fits s.nsSinceBoot := by
  obtain ⟨hnow, a, l, h⟩ := (booted_queue h0).callRun hclock hrun
  rw [r.fits_iff hnow]
  generalize hw : r.endTime s.nsSinceBoot = w
  have hcall : Running s (.call t r) := ht
  constructor
  · intro hnever
    by_cases hpast : w ≤ s.nsSinceBoot
    · -- the call returns at once
      obtain ⟨s₁, hs₁, l₁, -, heffect⟩ :=
        (h.callStep hcall (l.length + 1)).exists_ok fun e he => by omega
      have hpast' : a.wakeup false (r.endTime s.nsSinceBoot) ≤ a.now := by
        rw [← h.now]
        exact hw ▸ hpast
      simp only [CallEvent.onQueue, Effect] at heffect
      rw [if_pos hpast'] at heffect
      have hneed := hnever _ s₁ hs₁ [] s₁ (.nil s₁) (by rw [heffect.1]; exact ht)
      simp only [elapsed, List.map_nil, List.sum_nil] at hneed
      omega
    · obtain ⟨fuel, s₁, s₂, hs₁, hadv, hwoken⟩ := h.sleeps ht hnow (by rw [hw]; omega)
      have hneed := hnever fuel s₁ hs₁ _ s₂ hadv hwoken
      rw [hw] at hneed
      have hw64 : w < 18446744073709551616 := by
        rw [← hw]
        exact r.endTime_lt _
      have hd : UInt64.toNat (.ofNat (w - s.nsSinceBoot)) = w - s.nsSinceBoot :=
        UInt64.toNat_ofNat_of_lt' (by change w - s.nsSinceBoot < 18446744073709551616; omega)
      simp only [elapsed, List.map_cons, List.map_nil, List.sum_cons, List.sum_nil,
        CallEvent.elapsed, hd] at hneed
      omega
  · intro hfits fuel s₁ hs₁ es s₂ hrun₁ hwoken
    obtain ⟨l₁, h₁, heffect⟩ := (h.callStep hcall fuel).of_ok hs₁
    simp only [CallEvent.onQueue, Effect, hw] at heffect h₁
    split at heffect
    · next hpast =>
      have : w ≤ s.nsSinceBoot := by
        rw [h.now]
        exact hpast
      omega
    · next hlater =>
      have hlt : a.now < w := Nat.lt_of_not_le hlater
      rw [a.after_add hlt] at h₁
      have hblocked : (s₁.thr t).blocked = true :=
        h₁.blocked ⟨t, w, a.tickets⟩ ((h₁.mem _).mpr (Function.update_self _ _ _))
      have hdue : ∀ d, Function.update a.due t (some (w, a.tickets)) t = some d → d.1 = w := by
        intro d hd
        rw [Function.update_self] at hd
        rw [← Option.some.inj hd]
      have hle : w ≤ a.now + elapsed es := h₁.asleep_run hrun₁ ⟨hblocked, hdue⟩ hwoken
      rw [← h.now] at hle
      omega

/-- At time 1 a sleep for 1000 ns fits. -/
theorem sleep_never_early_iff_fits : ∃ s, CallRun awake [.advance 1] s ∧
    NeverEarly s 0 (.sleepNano 1000) := by
  have hrun : ∃ s, CallRun awake [.advance 1] s ∧ (s.thr 0).blocked = false ∧ s.nsSinceBoot = 1 :=
    ⟨_, .cons 1 trivial rfl (.nil _), rfl, rfl⟩
  obtain ⟨s, hs, hrunning, hnow⟩ := hrun
  have hboot : Booted awake := ⟨rfl, rfl, fun _ => ⟨rfl, rfl⟩⟩
  refine ⟨s, hs, (sleep_never_early_iff hboot (by decide) hs hrunning).mpr ?_⟩
  rw [hnow]
  decide

/-- At time 1 a sleep for the longest time there is ends at time 0: the call returns at once. -/
theorem sleepNano_returns_at_once : ∃ s, CallRun awake [.advance 1] s ∧
    sleepNano 1 s 0 18446744073709551615 = .ok s ∧ (s.thr 0).blocked = false ∧
    ¬ NeverEarly s 0 (.sleepNano 18446744073709551615) := by
  have hrun : ∃ s, CallRun awake [.advance 1] s ∧ (s.thr 0).blocked = false ∧
      sleepNano 1 s 0 18446744073709551615 = .ok s :=
    ⟨_, .cons 1 trivial rfl (.nil _), rfl, rfl⟩
  obtain ⟨s, hs, hrunning, hcall⟩ := hrun
  refine ⟨s, hs, hcall, hrunning, fun hnever => ?_⟩
  have hneed : 18446744073709551615 ≤ elapsed [] := hnever 1 s hcall [] s (.nil s) hrunning
  exact absurd hneed (by decide)

end Nolrem.Sync.Sleep
