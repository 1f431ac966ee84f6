import Mathlib.Data.BitVec
import Mathlib.Logic.Function.Basic
import Mathlib.Tactic.Common
import Nolrem.Lib.Transition

/-!
# The queue of messages from interrupt handlers

`EnqueueIrqMessage` and `DequeueIrqMessage` of `kernel/task/scheduler.c`. A call is a small
program whose steps are the atomic operations and the copies of a slot; any number of calls
run at the same time. The calls are numbered, and a call that has returned stays where it is.
-/

namespace Nolrem.Task

open Nolrem.Lib

variable {M : Type}

/-! ## The code -/

/-- Where a call is. What follows `current` in the loops is its snapshot of a bitmap. -/
inductive IrqCall (M : Type) where
  | idle
  | enqueuing (msg : M) (current : BitVec 32)
  /-- The slot `i` is reserved and not written. -/
  | claimed (msg : M) (i : Nat)
  | written (msg : M) (i : Nat)
  /-- `EnqueueIrqMessage` returned 0. -/
  | posted (msg : M)
  /-- It returned `ENOBUFS`. -/
  | noBufs (msg : M)
  | dequeuing (current : BitVec 32)
  /-- The slot `i` is reserved for reading and not read. -/
  | taking (i : Nat)
  | copied (i : Nat) (msg : M) (source : Nat)
  /-- `DequeueIrqMessage` returned 0 with `msg`, which the call `source` enqueued. -/
  | got (msg : M) (source : Nat)
  /-- It returned `EAGAIN`. -/
  | again
  /-- It returned `EINVAL`. -/
  | invalid
deriving DecidableEq, Repr

/--
The queue and the calls. `writer` is for the statements only: the call that last wrote a slot.
-/
structure IrqState (M : Type) where
  queue : Nat → M
  claimed : BitVec 32
  filled : BitVec 32
  call : Nat → IrqCall M
  writer : Nat → Nat

def IrqState.goto (st : IrqState M) (c : Nat) (p : IrqCall M) : IrqState M :=
  { st with call := Function.update st.call c p }

/-- `__builtin_ctz`; 32 when no bit is set. -/
def ctz (v : BitVec 32) : Nat := ((List.range 32).find? fun i => v.getLsbD i).getD 32

/-- `1U << bit_index` -/
def slotBit (i : Nat) : BitVec 32 := BitVec.twoPow 32 i

/-- The loop of `EnqueueIrqMessage`, once; a weak exchange may fail for no reason. -/
def tryClaim (st : IrqState M) (c : Nat) (msg : M) (current : BitVec 32) (spurious : Bool) :
    IrqState M :=
  if current = BitVec.allOnes 32 then st.goto c (.noBufs msg)
  else if 32 ≤ ctz (~~~current) then st.goto c (.noBufs msg)
  else if st.claimed = current ∧ spurious = false then
    { st with claimed := current ||| slotBit (ctz (~~~current)) }.goto c
      (.claimed msg (ctz (~~~current)))
  else st.goto c (.enqueuing msg st.claimed)

/-- The loop of `DequeueIrqMessage`, once. -/
def tryTake (st : IrqState M) (c : Nat) (current : BitVec 32) (spurious : Bool) : IrqState M :=
  if current = 0#32 then st.goto c .again
  else if 32 ≤ ctz current then st.goto c .again
  else if st.filled = current ∧ spurious = false then
    { st with filled := current &&& ~~~(slotBit (ctz current)) }.goto c (.taking (ctz current))
  else st.goto c (.dequeuing st.filled)

/-- The next step of the call `c`. -/
def advance (st : IrqState M) (c : Nat) (spurious : Bool) : IrqState M :=
  match st.call c with
  | .enqueuing msg current => tryClaim st c msg current spurious
  | .claimed msg i =>
    { st with
      queue := Function.update st.queue i msg
      writer := Function.update st.writer i c }.goto c (.written msg i)
  | .written msg i => { st with filled := st.filled ||| slotBit i }.goto c (.posted msg)
  | .dequeuing current => tryTake st c current spurious
  | .taking i => st.goto c (.copied i (st.queue i) (st.writer i))
  | .copied i msg source =>
    { st with claimed := st.claimed &&& ~~~(slotBit i) }.goto c (.got msg source)
  | _ => st

inductive IrqStep : IrqState M → IrqState M → Prop where
  /-- `EnqueueIrqMessage(msg)` is called and loads the bitmap. -/
  | enqueue (st : IrqState M) (c : Nat) (msg : M) (h : st.call c = .idle) :
      IrqStep st (st.goto c (.enqueuing msg st.claimed))
  /-- `DequeueIrqMessage` is called and loads the bitmap. -/
  | dequeue (st : IrqState M) (c : Nat) (h : st.call c = .idle) :
      IrqStep st (st.goto c (.dequeuing st.filled))
  /-- `DequeueIrqMessage(NULL)` -/
  | dequeueNull (st : IrqState M) (c : Nat) (h : st.call c = .idle) :
      IrqStep st (st.goto c .invalid)
  | advance (st : IrqState M) (c : Nat) (spurious : Bool) : IrqStep st (advance st c spurious)

/-- Both bitmaps start at 0. -/
def emptyIrqQueue (queue : Nat → M) : IrqState M :=
  { queue, claimed := 0#32, filled := 0#32, call := fun _ => .idle, writer := fun _ => 0 }

/-! ## Bits -/

theorem ctz_spec {v : BitVec 32} (h : ctz v < 32) : v.getLsbD (ctz v) = true := by
  unfold ctz at h ⊢
  cases hf : (List.range 32).find? fun i => v.getLsbD i with
  | none =>
    rw [hf] at h
    simp at h
  | some i => simpa using List.find?_some hf

theorem getLsbD_slotBit {i : Nat} (hi : i < 32) (j : Nat) :
    (slotBit i).getLsbD j = decide (i = j) := by
  unfold slotBit
  rw [BitVec.getLsbD_twoPow]
  simp [hi]

theorem getLsbD_set {i : Nat} (hi : i < 32) (v : BitVec 32) (j : Nat) :
    (v ||| slotBit i).getLsbD j = (v.getLsbD j || decide (i = j)) := by
  rw [BitVec.getLsbD_or, getLsbD_slotBit hi]

theorem getLsbD_clear {i : Nat} (hi : i < 32) (v : BitVec 32) (j : Nat) :
    (v &&& ~~~(slotBit i)).getLsbD j = (v.getLsbD j && !decide (i = j)) := by
  rw [BitVec.getLsbD_and, BitVec.getLsbD_not, getLsbD_slotBit hi]
  by_cases hj : j < 32
  · simp [hj]
  · simp [BitVec.getLsbD_of_ge v j (by omega)]

/-! ## The invariant -/

/-- The slot that a call has reserved. -/
def IrqCall.slot : IrqCall M → Option Nat
  | .claimed _ i => some i
  | .written _ i => some i
  | .taking i => some i
  | .copied i _ _ => some i
  | _ => none

/-- A call that holds neither a slot nor a message that was posted. -/
def IrqCall.quiet : IrqCall M → Bool
  | .idle => true
  | .enqueuing _ _ => true
  | .noBufs _ => true
  | .dequeuing _ => true
  | .again => true
  | .invalid => true
  | _ => false

/-- The message of a slot is published, and no consumer has copied it. -/
def IrqState.Full (st : IrqState M) (i : Nat) : Prop :=
  st.filled.getLsbD i = true ∨ ∃ c, st.call c = .taking i

/-- The call `c` has the message `msg` of the call `e`. -/
def IrqState.Has (st : IrqState M) (c : Nat) (msg : M) (e : Nat) : Prop :=
  (∃ i, st.call c = .copied i msg e) ∨ st.call c = .got msg e

/-- Where the message of a call is: in a slot, or with the call that took it out. -/
inductive MsgPlace where
  | slot (i : Nat)
  | call (c : Nat)

def IrqState.At (st : IrqState M) (e : Nat) : MsgPlace → Prop
  | .slot i => st.writer i = e ∧ st.Full i
  | .call c => ∃ msg, st.Has c msg e

structure IrqInv (st : IrqState M) : Prop where
  reserved : ∀ c i, (st.call c).slot = some i →
    i < 32 ∧ st.claimed.getLsbD i = true ∧ st.filled.getLsbD i = false
  apart : ∀ c d i, (st.call c).slot = some i → (st.call d).slot = some i → c = d
  sub : ∀ i, st.filled.getLsbD i = true → st.claimed.getLsbD i = true
  written : ∀ c msg i, st.call c = .written msg i → st.queue i = msg ∧ st.writer i = c
  full : ∀ i, st.Full i → st.call (st.writer i) = .posted (st.queue i)
  has : ∀ c msg e, st.Has c msg e → st.call e = .posted msg
  once : ∀ e p q, st.At e p → st.At e q → p = q
  all : ∀ e msg, st.call e = .posted msg → ∃ p, st.At e p

theorem at_slot {st : IrqState M} {e i : Nat} :
    st.At e (.slot i) ↔ st.writer i = e ∧ st.Full i := Iff.rfl

theorem at_call {st : IrqState M} {e c : Nat} :
    st.At e (.call c) ↔ ∃ msg, st.Has c msg e := Iff.rfl

/-- Only messages of calls that returned 0 are anywhere. -/
theorem IrqInv.posted_of_at {st : IrqState M} (h : IrqInv st) {e : Nat} {p : MsgPlace}
    (hp : st.At e p) : ∃ msg, st.call e = .posted msg := by
  cases p with
  | slot i =>
    obtain ⟨rfl, hf⟩ := at_slot.mp hp
    exact ⟨_, h.full i hf⟩
  | call c =>
    obtain ⟨msg, hm⟩ := at_call.mp hp
    exact ⟨msg, h.has c msg e hm⟩

theorem goto_call (st : IrqState M) (c : Nat) (p : IrqCall M) (d : Nat) :
    (st.goto c p).call d = if d = c then p else st.call d := Function.update_apply ..

section Steps

variable {st st' : IrqState M} {c : Nat} {msg : M} {i : Nat}

/-- Each message is where it was if the same slots are full and the same calls have messages. -/
theorem at_congr (hwriter : st'.writer = st.writer) (hfull : ∀ j, st'.Full j ↔ st.Full j)
    (hhas : ∀ d m e, st'.Has d m e ↔ st.Has d m e) (e : Nat) (q : MsgPlace) :
    st'.At e q ↔ st.At e q := by
  cases q with
  | slot j => rw [at_slot, at_slot, hfull, hwriter]
  | call d => exact exists_congr fun m => hhas d m e

/-- A step of a call that only looks at the bitmaps. -/
theorem goto_quiet_inv (h : IrqInv st) (hold : (st.call c).quiet = true) {p : IrqCall M}
    (hnew : p.quiet = true) : IrqInv (st.goto c p) := by
  have hslot : ∀ d, ((st.goto c p).call d).slot = (st.call d).slot := by
    intro d
    rw [goto_call]
    split
    · next hd =>
      subst hd
      cases p <;> cases hq : st.call d <;> simp_all [IrqCall.quiet, IrqCall.slot]
    · rfl
  have hcall : ∀ d q, q.quiet = false → ((st.goto c p).call d = q ↔ st.call d = q) := by
    intro d q hq
    rw [goto_call]
    split
    · next hd =>
      subst hd
      constructor <;> rintro rfl <;> simp_all
    · rfl
  have hfull : ∀ i, (st.goto c p).Full i ↔ st.Full i := fun i =>
    or_congr_right (exists_congr fun d => hcall d _ rfl)
  have hhas : ∀ d m e, (st.goto c p).Has d m e ↔ st.Has d m e := fun d m e =>
    or_congr (exists_congr fun i => hcall d _ rfl) (hcall d _ rfl)
  have hat := @at_congr _ st (st.goto c p) rfl hfull hhas
  refine ⟨fun d i => ?_, fun d e i => ?_, h.sub, fun d m i => ?_, fun i => ?_, fun d m e => ?_,
    fun e q r => ?_, fun e m => ?_⟩
  · rw [hslot]
    exact h.reserved d i
  · rw [hslot, hslot]
    exact h.apart d e i
  · rw [hcall d _ rfl]
    exact h.written d m i
  · rw [hfull]
    exact fun hf => (hcall _ _ rfl).mpr (h.full i hf)
  · rw [hhas, hcall e _ rfl]
    exact h.has d m e
  · rw [hat, hat]
    exact h.once e q r
  · rw [hcall e _ rfl]
    exact fun he => (h.all e m he).imp fun q hq => (hat e q).mpr hq

/-- The compare-exchange of a producer. -/
theorem claim_inv (h : IrqInv st) (hc : st.call c = .enqueuing msg st.claimed)
    (_hi : i < 32) (hfree : st.claimed.getLsbD i = false)
    (hcall : ∀ d, st'.call d = if d = c then .claimed msg i else st.call d)
    (hqueue : st'.queue = st.queue) (hwriter : st'.writer = st.writer)
    (hfilled : st'.filled = st.filled)
    (hclaimed : ∀ j, st'.claimed.getLsbD j = (st.claimed.getLsbD j || decide (i = j))) :
    IrqInv st' := by
  have hnone : ∀ d, (st.call d).slot ≠ some i := fun d hd => by
    simp [(h.reserved d i hd).2.1] at hfree
  have hfull : ∀ j, st'.Full j ↔ st.Full j := by
    unfold IrqState.Full
    grind
  have hhas : ∀ d m e, st'.Has d m e ↔ st.Has d m e := by
    unfold IrqState.Has
    grind
  have hat := at_congr hwriter hfull hhas
  obtain ⟨h1, h2, h3, h4, h5, h6, h7, h8⟩ := h
  refine ⟨fun d j => ?_, fun d e j => ?_, fun j => ?_, fun d m j => ?_, fun j => ?_, fun d m e => ?_,
    fun e q r => ?_, fun e m => ?_⟩
  · rw [hcall, hclaimed, hfilled]
    grind [IrqCall.slot]
  · rw [hcall, hcall]
    grind [IrqCall.slot]
  · rw [hfilled, hclaimed]
    grind
  all_goals grind

/-- A producer writes the slot that it reserved. -/
theorem write_inv (h : IrqInv st) (hc : st.call c = .claimed msg i)
    (hcall : ∀ d, st'.call d = if d = c then .written msg i else st.call d)
    (hqueue : ∀ j, st'.queue j = if j = i then msg else st.queue j)
    (hwriter : ∀ j, st'.writer j = if j = i then c else st.writer j)
    (hfilled : st'.filled = st.filled) (hclaimed : st'.claimed = st.claimed) : IrqInv st' := by
  have hslot : (st.call c).slot = some i := by
    rw [hc]
    rfl
  have hempty : ¬ st.Full i := by
    rintro (hf | ⟨d, hd⟩)
    · rw [(h.reserved c i hslot).2.2] at hf
      exact absurd hf (by decide)
    · have hcd := h.apart c d i hslot (by rw [hd]; rfl)
      rw [← hcd, hc] at hd
      cases hd
  have hfull : ∀ j, st'.Full j ↔ st.Full j := by
    unfold IrqState.Full
    grind
  have hhas : ∀ d m e, st'.Has d m e ↔ st.Has d m e := by
    unfold IrqState.Has
    grind
  have hat : ∀ e q, st'.At e q ↔ st.At e q := by
    intro e q
    cases q with
    | slot j =>
      rw [at_slot, at_slot, hfull, hwriter]
      grind
    | call d => exact exists_congr fun m => hhas d m e
  obtain ⟨h1, h2, h3, h4, h5, h6, h7, h8⟩ := h
  refine ⟨fun d j => ?_, fun d e j => ?_, fun j => ?_, fun d m j => ?_, fun j => ?_, fun d m e => ?_,
    fun e q r => ?_, fun e m => ?_⟩
  · rw [hcall, hclaimed, hfilled]
    grind [IrqCall.slot]
  · rw [hcall, hcall]
    grind [IrqCall.slot]
  · grind
  · rw [hcall, hqueue, hwriter]
    grind [IrqCall.slot]
  all_goals grind

/-- A producer publishes its message. -/
theorem publish_inv (h : IrqInv st) (hc : st.call c = .written msg i)
    (hcall : ∀ d, st'.call d = if d = c then .posted msg else st.call d)
    (hqueue : st'.queue = st.queue) (hwriter : st'.writer = st.writer)
    (hfilled : ∀ j, st'.filled.getLsbD j = (st.filled.getLsbD j || decide (i = j)))
    (hclaimed : st'.claimed = st.claimed) : IrqInv st' := by
  have hslot : (st.call c).slot = some i := by
    rw [hc]
    rfl
  obtain ⟨hq, hw⟩ := h.written c msg i hc
  have hnew : ∀ q, ¬ st.At c q := fun q hq => by
    obtain ⟨m, hm⟩ := h.posted_of_at hq
    simp [hc] at hm
  have hfull : ∀ j, st'.Full j ↔ st.Full j ∨ j = i := by
    unfold IrqState.Full
    grind
  have hhas : ∀ d m e, st'.Has d m e ↔ st.Has d m e := by
    unfold IrqState.Has
    grind
  have hat : ∀ e q, st'.At e q ↔ st.At e q ∨ e = c ∧ q = .slot i := by
    intro e q
    cases q with
    | slot j =>
      rw [at_slot, at_slot, hfull, hwriter]
      grind
    | call d =>
      rw [at_call, at_call]
      simp only [hhas, reduceCtorEq, and_false, or_false]
  obtain ⟨h1, h2, h3, h4, h5, h6, h7, h8⟩ := h
  refine ⟨fun d j => ?_, fun d e j => ?_, fun j => ?_, fun d m j => ?_, fun j => ?_, fun d m e => ?_,
    fun e q r => ?_, fun e m => ?_⟩
  · rw [hcall, hclaimed, hfilled]
    grind [IrqCall.slot]
  · rw [hcall, hcall]
    grind [IrqCall.slot]
  · rw [hfilled, hclaimed]
    grind
  · grind
  · grind
  · grind
  · grind
  · intro he
    by_cases hec : e = c
    · exact ⟨.slot i, (hat _ _).mpr (Or.inr ⟨hec, rfl⟩)⟩
    · rw [hcall, if_neg hec] at he
      obtain ⟨q, hq⟩ := h8 e m he
      exact ⟨q, (hat _ _).mpr (Or.inl hq)⟩

/-- The compare-exchange of a consumer. -/
theorem take_inv (h : IrqInv st) (hc : st.call c = .dequeuing st.filled)
    (hi : i < 32) (hset : st.filled.getLsbD i = true)
    (hcall : ∀ d, st'.call d = if d = c then .taking i else st.call d)
    (hqueue : st'.queue = st.queue) (hwriter : st'.writer = st.writer)
    (hfilled : ∀ j, st'.filled.getLsbD j = (st.filled.getLsbD j && !decide (i = j)))
    (hclaimed : st'.claimed = st.claimed) : IrqInv st' := by
  have hnone : ∀ d, (st.call d).slot ≠ some i := fun d hd => by
    simp [(h.reserved d i hd).2.2] at hset
  have hfull : ∀ j, st'.Full j ↔ st.Full j := by
    unfold IrqState.Full
    grind
  have hhas : ∀ d m e, st'.Has d m e ↔ st.Has d m e := by
    unfold IrqState.Has
    grind
  have hat := at_congr hwriter hfull hhas
  obtain ⟨h1, h2, h3, h4, h5, h6, h7, h8⟩ := h
  refine ⟨fun d j => ?_, fun d e j => ?_, fun j => ?_, fun d m j => ?_, fun j => ?_, fun d m e => ?_,
    fun e q r => ?_, fun e m => ?_⟩
  · rw [hcall, hclaimed, hfilled]
    grind [IrqCall.slot]
  · rw [hcall, hcall]
    grind [IrqCall.slot]
  · rw [hfilled, hclaimed]
    grind
  all_goals grind

/-- A consumer copies the slot that it reserved. -/
theorem copy_inv (h : IrqInv st) (hc : st.call c = .taking i)
    (hcall : ∀ d, st'.call d =
      if d = c then .copied i (st.queue i) (st.writer i) else st.call d)
    (hqueue : st'.queue = st.queue) (hwriter : st'.writer = st.writer)
    (hfilled : st'.filled = st.filled) (hclaimed : st'.claimed = st.claimed) : IrqInv st' := by
  have hslot : (st.call c).slot = some i := by
    rw [hc]
    rfl
  have hsrc : st.At (st.writer i) (.slot i) := ⟨rfl, Or.inr ⟨c, hc⟩⟩
  have hpost := h.full i (Or.inr ⟨c, hc⟩)
  have hclear := (h.reserved c i hslot).2.2
  have hone : ∀ d, st.call d = .taking i → d = c := fun d hd =>
    h.apart d c i (by rw [hd]; rfl) hslot
  have hfull : ∀ j, st'.Full j ↔ st.Full j ∧ j ≠ i := by
    unfold IrqState.Full
    grind
  have hhas : ∀ d m e, st'.Has d m e ↔
      st.Has d m e ∨ d = c ∧ m = st.queue i ∧ e = st.writer i := by
    unfold IrqState.Has
    grind
  have hat : ∀ e q, st'.At e q ↔ st.At e q ∧ q ≠ .slot i ∨ e = st.writer i ∧ q = .call c := by
    intro e q
    cases q with
    | slot j =>
      rw [at_slot, at_slot, hfull, hwriter]
      grind
    | call d =>
      rw [at_call, at_call]
      simp only [hhas, ne_eq, reduceCtorEq, not_false_eq_true, and_true, MsgPlace.call.injEq]
      grind
  obtain ⟨h1, h2, h3, h4, h5, h6, h7, h8⟩ := h
  refine ⟨fun d j => ?_, fun d e j => ?_, fun j => ?_, fun d m j => ?_, fun j => ?_, fun d m e => ?_,
    fun e q r => ?_, fun e m => ?_⟩
  · rw [hcall, hclaimed, hfilled]
    grind [IrqCall.slot]
  · rw [hcall, hcall]
    grind [IrqCall.slot]
  · grind
  · grind
  · grind
  · grind
  · grind
  · intro he
    by_cases hew : e = st.writer i
    · exact ⟨.call c, (hat _ _).mpr (Or.inr ⟨hew, rfl⟩)⟩
    · obtain ⟨q, hq⟩ := h8 e m (by grind)
      refine ⟨q, (hat _ _).mpr (Or.inl ⟨hq, ?_⟩)⟩
      rintro rfl
      exact hew (at_slot.mp hq).1.symm

/-- A consumer opens the slot to producers again. -/
theorem free_inv (h : IrqInv st) {e : Nat} (hc : st.call c = .copied i msg e)
    (hcall : ∀ d, st'.call d = if d = c then .got msg e else st.call d)
    (hqueue : st'.queue = st.queue) (hwriter : st'.writer = st.writer)
    (hfilled : st'.filled = st.filled)
    (hclaimed : ∀ j, st'.claimed.getLsbD j = (st.claimed.getLsbD j && !decide (i = j))) :
    IrqInv st' := by
  have hslot : (st.call c).slot = some i := by
    rw [hc]
    rfl
  have hclear := (h.reserved c i hslot).2.2
  have hfull : ∀ j, st'.Full j ↔ st.Full j := by
    unfold IrqState.Full
    grind
  have hhas : ∀ d m f, st'.Has d m f ↔ st.Has d m f := by
    unfold IrqState.Has
    grind
  have hat := at_congr hwriter hfull hhas
  obtain ⟨h1, h2, h3, h4, h5, h6, h7, h8⟩ := h
  refine ⟨fun d j => ?_, fun d e j => ?_, fun j => ?_, fun d m j => ?_, fun j => ?_, fun d m e => ?_,
    fun e q r => ?_, fun e m => ?_⟩
  · rw [hcall, hclaimed, hfilled]
    grind [IrqCall.slot]
  · rw [hcall, hcall]
    grind [IrqCall.slot]
  · rw [hfilled, hclaimed]
    grind
  all_goals grind

theorem advance_inv (h : IrqInv st) (c : Nat) (spurious : Bool) :
    IrqInv (advance st c spurious) := by
  unfold advance
  cases hc : st.call c with
  | enqueuing msg current =>
    have hq : (st.call c).quiet = true := by rw [hc]; rfl
    simp only [tryClaim]
    split
    · exact goto_quiet_inv h hq rfl
    · split
      · exact goto_quiet_inv h hq rfl
      · next hlt =>
        split
        · next hcas =>
          obtain ⟨rfl, -⟩ := hcas
          have hbit := ctz_spec (by omega : ctz (~~~st.claimed) < 32)
          rw [BitVec.getLsbD_not, Bool.and_eq_true] at hbit
          exact claim_inv h hc (by omega) (by simpa using hbit.2) (goto_call _ c _) rfl rfl rfl
            (getLsbD_set (by omega) _)
        · exact goto_quiet_inv h hq rfl
  | claimed msg i =>
    exact write_inv h hc (goto_call _ c _) (fun j => Function.update_apply ..)
      (fun j => Function.update_apply ..) rfl rfl
  | written msg i =>
    have hi := (h.reserved c i (by rw [hc]; rfl)).1
    exact publish_inv h hc (goto_call _ c _) rfl rfl (getLsbD_set hi _) rfl
  | dequeuing current =>
    have hq : (st.call c).quiet = true := by rw [hc]; rfl
    simp only [tryTake]
    split
    · exact goto_quiet_inv h hq rfl
    · split
      · exact goto_quiet_inv h hq rfl
      · next hlt =>
        split
        · next hcas =>
          obtain ⟨rfl, -⟩ := hcas
          exact take_inv h hc (by omega) (ctz_spec (by omega)) (goto_call _ c _) rfl rfl
            (getLsbD_clear (by omega) _) rfl
        · exact goto_quiet_inv h hq rfl
  | taking i => exact copy_inv h hc (goto_call _ c _) rfl rfl rfl rfl
  | copied i msg source =>
    have hi := (h.reserved c i (by rw [hc]; rfl)).1
    exact free_inv h hc (goto_call _ c _) rfl rfl rfl (getLsbD_clear hi _)
  | idle => exact h
  | posted msg => exact h
  | noBufs msg => exact h
  | got msg source => exact h
  | again => exact h
  | invalid => exact h

theorem irqStep_inv (h : IrqInv st) (hstep : IrqStep st st') : IrqInv st' := by
  cases hstep with
  | enqueue c msg hc => exact goto_quiet_inv h (by rw [hc]; rfl) rfl
  | dequeue c hc => exact goto_quiet_inv h (by rw [hc]; rfl) rfl
  | dequeueNull c hc => exact goto_quiet_inv h (by rw [hc]; rfl) rfl
  | advance c spurious => exact advance_inv h c spurious

theorem emptyIrqQueue_inv (queue : Nat → M) : IrqInv (emptyIrqQueue queue) := by
  have hfull : ∀ i, ¬ (emptyIrqQueue queue).Full i := by
    rintro i (hf | ⟨c, hc⟩)
    · simp [emptyIrqQueue] at hf
    · cases hc
  have hhas : ∀ d m e, ¬ (emptyIrqQueue queue).Has d m e := by
    rintro d m e (⟨i, hc⟩ | hc) <;> cases hc
  refine ⟨fun c i hc => ?_, fun c d i hc => ?_, fun i hf => absurd (Or.inl hf) (hfull i),
    fun c msg i hc => ?_, fun i hf => absurd hf (hfull i), fun d m e hm => absurd hm (hhas d m e),
    fun e p q hp => ?_, fun e msg hc => ?_⟩
  · cases hc
  · cases hc
  · cases hc
  · cases p with
    | slot i => exact absurd hp.2 (hfull i)
    | call c => exact hp.elim fun m hm => absurd hm (hhas c m e)
  · cases hc

/-- The only step that writes a slot is the copy of the producer that has reserved it. -/
theorem irqStep_queue (h : IrqInv st) (hstep : IrqStep st st') (hc : st.call c = .taking i) :
    st'.queue i = st.queue i := by
  cases hstep with
  | enqueue d msg hd => rfl
  | dequeue d hd => rfl
  | dequeueNull d hd => rfl
  | advance d spurious =>
    unfold advance
    cases hd : st.call d with
    | enqueuing msg current =>
      simp only [tryClaim]
      split_ifs <;> rfl
    | claimed msg j =>
      have hne : i ≠ j := by
        rintro rfl
        have hdc := h.apart d c i (by rw [hd]; rfl) (by rw [hc]; rfl)
        rw [hdc, hc] at hd
        cases hd
      exact Function.update_of_ne hne ..
    | dequeuing current =>
      simp only [tryTake]
      split_ifs <;> rfl
    | _ => rfl

end Steps

/-! ## Exactly once -/

/-- No message is queued and no `DequeueIrqMessage` has reserved a slot. -/
def IrqState.Drained (st : IrqState M) : Prop :=
  st.filled = 0#32 ∧ ∀ c, (∀ i, st.call c ≠ .taking i) ∧ ∀ i msg e, st.call c ≠ .copied i msg e

structure ExactlyOnce (st : IrqState M) : Prop where
  filled_claimed : ∀ i, st.filled.getLsbD i = true → st.claimed.getLsbD i = true
  /-- What a dequeue returns is what an enqueue that returned 0 was given. -/
  intact : ∀ d msg e, st.call d = .got msg e → st.call e = .posted msg
  at_most_once : ∀ d d' msg msg' e, st.call d = .got msg e → st.call d' = .got msg' e → d = d'
  drained : st.Drained → ∀ e msg, st.call e = .posted msg → ∃ d, st.call d = .got msg e

/--
**The queue delivers exactly once.** In every state that calls can reach, each message that
was accepted is returned by at most one dequeue, and by one once the queue is drained; and no
step writes a slot that a consumer has reserved and not yet copied.
-/
theorem irq_queue_exactly_once {queue : Nat → M} {st : IrqState M}
    (hrun : Reaches IrqStep (emptyIrqQueue queue) st) :
    ExactlyOnce st ∧ ∀ st' c i, IrqStep st st' → st.call c = .taking i →
      st'.queue i = st.queue i := by
  have h : IrqInv st :=
    hrun.invariant (emptyIrqQueue_inv queue) fun a b ha hab => irqStep_inv ha hab
  refine ⟨⟨h.sub, fun d msg e hd => h.has d msg e (Or.inr hd), fun d d' msg msg' e hd hd' => ?_,
    fun hdrained e msg he => ?_⟩, fun st' c i hstep hc => irqStep_queue h hstep hc⟩
  · have heq := h.once e (.call d) (.call d') ⟨msg, Or.inr hd⟩ ⟨msg', Or.inr hd'⟩
    cases heq
    rfl
  · obtain ⟨hfilled, hidle⟩ := hdrained
    obtain ⟨p, hp⟩ := h.all e msg he
    cases p with
    | slot i =>
      obtain ⟨-, hf | ⟨c, hc⟩⟩ := at_slot.mp hp
      · simp [hfilled] at hf
      · exact absurd hc ((hidle c).1 i)
    | call c =>
      obtain ⟨m, ⟨i, hc⟩ | hc⟩ := at_call.mp hp
      · exact absurd hc ((hidle c).2 i m e)
      · have hm := h.has c m e (Or.inr hc)
        rw [he] at hm
        cases hm
        exact ⟨c, hc⟩

/-- One message goes through the queue. -/
theorem irq_queue_exactly_once_single : ∃ st : IrqState Nat,
    st.call 1 = .got 7 0 ∧ ExactlyOnce st := by
  let st₁ := (emptyIrqQueue fun _ => 0).goto 0 (.enqueuing 7 0#32)
  let st₂ := advance (advance (advance st₁ 0 false) 0 false) 0 false
  let st₃ := st₂.goto 1 (.dequeuing st₂.filled)
  have h₁ : Reaches IrqStep (emptyIrqQueue fun _ => 0) st₁ :=
    Relation.ReflTransGen.single (.enqueue _ 0 7 rfl)
  have h₂ : Reaches IrqStep (emptyIrqQueue fun _ => 0) st₂ :=
    ((h₁.tail (.advance _ 0 false)).tail (.advance _ 0 false)).tail (.advance _ 0 false)
  have h₃ : Reaches IrqStep (emptyIrqQueue fun _ => 0) st₃ := h₂.tail (.dequeue _ 1 rfl)
  exact ⟨_, by decide +kernel, (irq_queue_exactly_once (((h₃.tail (.advance _ 1 false)).tail
    (.advance _ 1 false)).tail (.advance _ 1 false))).1⟩

end Nolrem.Task
