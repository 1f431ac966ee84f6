import Mathlib.Logic.Function.Basic
import Mathlib.Tactic.Common
import Nolrem.Lib.Transition

/-!
# Frames that are zeroed in advance

`AllocZeroedPhys` and `ProvideZeroedPhys` of `kernel/mem/phys.c`. A call is a small program
whose steps are the atomic operations, `AllocPhys` and `ZeroPhysPage`. Beside the two slots the
state says who owns each frame, so that the owners can be followed through a run.
-/

namespace Nolrem.Phys

open Nolrem.Lib

/-! ## The code -/

/-- `ZEROED_PHYS_BUFFER_COUNT` -/
def zeroedPhysBufferCount : Nat := 2

/-- Where a call is. -/
inductive ZeroCall where
  | idle
  /-- `AllocZeroedPhys` before it loads slot `i`. -/
  | scanning (i : Nat)
  | loaded (i frame : Nat)
  /-- It took the frame out of a slot. -/
  | took (frame : Nat)
  /-- It is about to call `AllocPhys`. -/
  | asking
  | zeroing (frame : Nat)
  /-- `AllocZeroedPhys` returned the frame; it wrote to the frames of `wrote`. -/
  | allocated (frame : Nat) (wrote : List Nat)
  /-- `ProvideZeroedPhys` before it looks at the counter. -/
  | checking (phys : Nat)
  | offering (phys i : Nat)
  /-- It put the frame into a slot. -/
  | counting (phys : Nat)
  | closing (phys : Nat)
  | accepted (phys : Nat)
  | rejected (phys : Nat)
deriving DecidableEq, Repr

/--
`pool` holds the frames that `AllocPhys` may return and `held` those that belong to someone
outside; `accepted` and `served` count, for each frame, how often it was accepted by
`ProvideZeroedPhys` and returned out of a slot.
-/
structure ZeroState where
  /-- `zeroed_phys_buffer` -/
  slot : Nat → Nat
  /-- `please_provide_zeroed_phys` -/
  wanted : Nat
  mem : Nat → Nat → Nat
  pool : Nat → Bool
  held : Nat → Bool
  call : Nat → ZeroCall
  accepted : Nat → Nat
  served : Nat → Nat

def ZeroState.goto (st : ZeroState) (c : Nat) (p : ZeroCall) : ZeroState :=
  { st with call := Function.update st.call c p }

/-- The next step of the call `c`, up to `AllocPhys`. -/
def ZeroState.next (st : ZeroState) (c : Nat) : ZeroState :=
  match st.call c with
  | .scanning i =>
    if i < zeroedPhysBufferCount then
      if st.slot i ≠ 0 then st.goto c (.loaded i (st.slot i)) else st.goto c (.scanning (i + 1))
    else { st with wanted := zeroedPhysBufferCount }.goto c .asking
  | .loaded i frame =>
    if st.slot i = frame then
      { st with slot := Function.update st.slot i 0 }.goto c (.took frame)
    else st.goto c (.scanning (i + 1))
  | .took frame =>
    { st with
      wanted := (st.wanted + 1) % 256
      held := Function.update st.held frame true
      served := Function.update st.served frame (st.served frame + 1) }.goto c
        (.allocated frame [])
  | .zeroing frame =>
    { st with
      mem := Function.update st.mem frame fun _ => 0
      held := if frame = 0 then st.held else Function.update st.held frame true }.goto c
        (.allocated frame [frame])
  | .checking phys =>
    if st.wanted = 0 then
      { st with held := Function.update st.held phys true }.goto c (.rejected phys)
    else st.goto c (.offering phys 0)
  | .offering phys i =>
    if i < zeroedPhysBufferCount then
      if st.slot i = 0 then
        { st with
          slot := Function.update st.slot i phys
          accepted := Function.update st.accepted phys (st.accepted phys + 1) }.goto c
            (.counting phys)
      else st.goto c (.offering phys (i + 1))
    else st.goto c (.closing phys)
  | .counting phys => { st with wanted := (st.wanted + 255) % 256 }.goto c (.accepted phys)
  | .closing phys =>
    { st with
      wanted := 0
      held := Function.update st.held phys true }.goto c (.rejected phys)
  | _ => st

/--
One step. `fails` says whether `AllocPhys` may fail. A provider owns the frame it passes and
has zeroed it; an owner may write to a frame and give it back.
-/
inductive ZeroStep (fails : Prop) : ZeroState → ZeroState → Prop where
  | alloc (st : ZeroState) (c : Nat) (h : st.call c = .idle) :
      ZeroStep fails st (st.goto c (.scanning 0))
  | provide (st : ZeroState) (c phys : Nat) (h : st.call c = .idle) (hheld : st.held phys = true)
      (hzero : ∀ o, st.mem phys o = 0) :
      ZeroStep fails st
        ({ st with held := Function.update st.held phys false }.goto c (.checking phys))
  /-- `ProvideZeroedPhys(0)` -/
  | provideNull (st : ZeroState) (c : Nat) (h : st.call c = .idle) :
      ZeroStep fails st (st.goto c (.rejected 0))
  | next (st : ZeroState) (c : Nat) : ZeroStep fails st (st.next c)
  /-- `AllocPhys` in `AllocZeroedPhys` -/
  | allocPhys (st : ZeroState) (c frame : Nat) (h : st.call c = .asking)
      (hpool : st.pool frame = true) :
      ZeroStep fails st
        ({ st with pool := Function.update st.pool frame false }.goto c (.zeroing frame))
  | allocPhysFails (st : ZeroState) (c : Nat) (h : st.call c = .asking) (hfails : fails) :
      ZeroStep fails st (st.goto c (.zeroing 0))
  | write (st : ZeroState) (frame o v : Nat) (hheld : st.held frame = true) :
      ZeroStep fails st
        { st with
          mem := Function.update st.mem frame (Function.update (st.mem frame) o v) }
  /-- Another caller of `AllocPhys` -/
  | grant (st : ZeroState) (frame : Nat) (hpool : st.pool frame = true) :
      ZeroStep fails st
        { st with
          pool := Function.update st.pool frame false
          held := Function.update st.held frame true }
  | release (st : ZeroState) (frame : Nat) (hheld : st.held frame = true) :
      ZeroStep fails st
        { st with
          pool := Function.update st.pool frame true
          held := Function.update st.held frame false }

/-- The buffer is empty; `frames` says which frames `AllocPhys` has, frame 0 never. -/
def bootZeroState (frames : Nat → Bool) (mem : Nat → Nat → Nat) : ZeroState :=
  { slot := fun _ => 0
    wanted := 0
    mem
    pool := fun f => frames f && f != 0
    held := fun _ => false
    call := fun _ => .idle
    accepted := fun _ => 0
    served := fun _ => 0 }

/-! ## Who owns a frame -/

/-- The frame that a call has in its hands. -/
def ZeroCall.hand : ZeroCall → Nat
  | .took f => f
  | .zeroing f => f
  | .checking f => f
  | .offering f _ => f
  | .closing f => f
  | _ => 0

inductive FramePlace where
  | pool
  | held
  | slot (i : Nat)
  | hand (c : Nat)

def ZeroState.At (st : ZeroState) (f : Nat) : FramePlace → Prop
  | .pool => st.pool f = true
  | .held => st.held f = true
  | .slot i => st.slot i = f
  | .hand c => (st.call c).hand = f

/-- `f` is in a slot, or a call has just taken it out of one. -/
def ZeroState.Buffered (st : ZeroState) (f : Nat) : Prop :=
  (∃ i, st.slot i = f) ∨ ∃ c, st.call c = .took f

/-- The frame belongs to whoever holds it and to nobody else. -/
def ZeroState.OnlyHeld (st : ZeroState) (f : Nat) : Prop :=
  ∀ p, st.At f p ↔ p = .held

structure ZeroInv (st : ZeroState) : Prop where
  noZero : st.pool 0 = false ∧ st.held 0 = false
  once : ∀ f p q, f ≠ 0 → st.At f p → st.At f q → p = q
  slots : ∀ i, 2 ≤ i → st.slot i = 0
  slotZero : ∀ i, st.slot i ≠ 0 → ∀ o, st.mem (st.slot i) o = 0
  handZero : ∀ c, (st.call c).hand ≠ 0 → (∀ f, st.call c ≠ .zeroing f) →
    ∀ o, st.mem (st.call c).hand o = 0
  counts : ∀ f, f ≠ 0 → (st.Buffered f → st.accepted f = st.served f + 1) ∧
    (¬ st.Buffered f → st.accepted f = st.served f)
  positive : ∀ c, st.call c ≠ .took 0 ∧ st.call c ≠ .checking 0 ∧ (∀ i, st.call c ≠ .offering 0 i) ∧
    st.call c ≠ .closing 0 ∧ (∀ i, st.call c ≠ .loaded i 0)

/-- From `st` to `st'` the frame `f` goes to `q`, and no other frame moves. -/
def Moves (st st' : ZeroState) (f : Nat) (q : FramePlace) : Prop :=
  ∀ g r, g ≠ 0 → (st'.At g r ↔ if g = f then r = q else st.At g r)

theorem ZeroState.goto_call (st : ZeroState) (c : Nat) (p : ZeroCall) (d : Nat) :
    (st.goto c p).call d = if d = c then p else st.call d := Function.update_apply ..

section Steps

variable {st st' : ZeroState} {c f i : Nat} {p : ZeroCall}

@[grind =] theorem at_pool : st.At f .pool ↔ st.pool f = true := Iff.rfl

@[grind =] theorem at_held : st.At f .held ↔ st.held f = true := Iff.rfl

@[grind =] theorem at_slot : st.At f (.slot i) ↔ st.slot i = f := Iff.rfl

@[grind =] theorem at_hand : st.At f (.hand c) ↔ (st.call c).hand = f := Iff.rfl

theorem moves_once {q : FramePlace} (h : ZeroInv st) (hm : Moves st st' f q) :
    ∀ g r s, g ≠ 0 → st'.At g r → st'.At g s → r = s := by
  intro g r s hg hr hs
  rw [hm g r hg] at hr
  rw [hm g s hg] at hs
  split at hr
  · next hgf =>
    rw [if_pos hgf] at hs
    rw [hr, hs]
  · next hgf =>
    rw [if_neg hgf] at hs
    exact h.once g r s hg hr hs

/-- A call goes on without moving a frame. -/
theorem still_inv (h : ZeroInv st) (hcall : ∀ d, st'.call d = if d = c then p else st.call d)
    (hhand : p.hand = (st.call c).hand) (htook : ∀ g, st.call c ≠ .took g ∧ p ≠ .took g)
    (hzeroing : (∀ g, st.call c ≠ .zeroing g) ∨ p.hand = 0)
    (hpos : p ≠ .took 0 ∧ p ≠ .checking 0 ∧ (∀ i, p ≠ .offering 0 i) ∧ p ≠ .closing 0 ∧
      ∀ i, p ≠ .loaded i 0)
    (hslot : st'.slot = st.slot)
    (hmem : ∀ g o, st'.mem g o = st.mem g o ∨ st'.mem g o = 0) (hpool : st'.pool = st.pool)
    (hheld : st'.held = st.held) (hacc : st'.accepted = st.accepted)
    (hserved : st'.served = st.served) : ZeroInv st' := by
  have hands : ∀ d, (st'.call d).hand = (st.call d).hand := by grind
  have hm : Moves st st' 0 .pool := by
    intro g r hg
    rw [if_neg hg]
    cases r <;> simp only [ZeroState.At, hpool, hheld, hslot, hands]
  have hbuf : ∀ g, st'.Buffered g ↔ st.Buffered g := by
    intro g
    unfold ZeroState.Buffered
    rw [hslot]
    grind
  refine ⟨?_, moves_once h hm, ?_, ?_, fun d => ?_, fun g hg => ?_, fun d => ?_⟩
  · rw [hpool, hheld]
    exact h.noZero
  · rw [hslot]
    exact h.slots
  · rw [hslot]
    intro i hi o
    have := h.slotZero i hi o
    grind
  · rw [hands]
    have := h.handZero d
    grind
  · rw [hbuf, hacc, hserved]
    exact h.counts g hg
  · have := h.positive d
    grind

/-- `AllocZeroedPhys` takes a frame out of a slot. -/
theorem took_inv (h : ZeroInv st) (hc : st.call c = .loaded i f) (hi : st.slot i = f)
    (hcall : ∀ d, st'.call d = if d = c then .took f else st.call d)
    (hslot : ∀ j, st'.slot j = if j = i then 0 else st.slot j) (hmem : st'.mem = st.mem)
    (hpool : st'.pool = st.pool) (hheld : st'.held = st.held)
    (hacc : st'.accepted = st.accepted) (hserved : st'.served = st.served) : ZeroInv st' := by
  have hf : f ≠ 0 := fun hf => (h.positive c).2.2.2.2 i (by rw [hc, hf])
  have hfrom : st.At f (.slot i) := hi
  have honly : ∀ r, st.At f r → r = .slot i := fun r hr => h.once f r _ hf hr hfrom
  have hm : Moves st st' f (.hand c) := by
    intro g r hg
    have := honly r
    cases r <;> grind [ZeroCall.hand]
  have hbuf : ∀ g, g ≠ 0 → (st'.Buffered g ↔ st.Buffered g) := by
    unfold ZeroState.Buffered
    grind
  refine ⟨?_, moves_once h hm, fun j hj => ?_, fun j hj => ?_, fun d => ?_, fun g hg => ?_,
    fun d => ?_⟩
  · rw [hpool, hheld]
    exact h.noZero
  · have := h.slots j hj
    grind
  · have := h.slotZero j
    rw [hmem]
    grind
  · have := h.handZero d
    have := h.slotZero i
    rw [hmem]
    grind [ZeroCall.hand]
  · rw [hbuf g hg, hacc, hserved]
    exact h.counts g hg
  · have := h.positive d
    grind

/-- A call gives the frame in its hands to its caller. -/
theorem give_inv (h : ZeroInv st) (hc : (st.call c).hand = f) (hf : f ≠ 0)
    (htook : ∀ g, st.call c ≠ .took g)
    (hcall : ∀ d, st'.call d = if d = c then p else st.call d) (hp : p.hand = 0)
    (hpos : p ≠ .took 0 ∧ p ≠ .checking 0 ∧ (∀ i, p ≠ .offering 0 i) ∧ p ≠ .closing 0 ∧
      ∀ i, p ≠ .loaded i 0) (hptook : ∀ g, p ≠ .took g)
    (hslot : st'.slot = st.slot)
    (hmem : ∀ g o, st'.mem g o = st.mem g o ∨ st'.mem g o = 0) (hpool : st'.pool = st.pool)
    (hheld : ∀ g, st'.held g = if g = f then true else st.held g)
    (hacc : st'.accepted = st.accepted) (hserved : st'.served = st.served) : ZeroInv st' := by
  have hfrom : st.At f (.hand c) := hc
  have honly : ∀ r, st.At f r → r = .hand c := fun r hr => h.once f r _ hf hr hfrom
  have hm : Moves st st' f .held := by
    intro g r hg
    have := honly r
    cases r <;> grind
  have hbuf : ∀ g, st'.Buffered g ↔ st.Buffered g := by
    intro g
    unfold ZeroState.Buffered
    rw [hslot]
    grind
  refine ⟨?_, moves_once h hm, ?_, fun j hj o => ?_, fun d => ?_, fun g hg => ?_, fun d => ?_⟩
  · have := h.noZero
    grind
  · rw [hslot]
    exact h.slots
  · rw [hslot] at hj ⊢
    have := h.slotZero j hj o
    grind
  · have := h.handZero d
    grind
  · rw [hbuf g, hacc, hserved]
    exact h.counts g hg
  · have := h.positive d
    grind

/-- `AllocZeroedPhys` returns a frame that it took out of a slot. -/
theorem serve_inv (h : ZeroInv st) (hc : st.call c = .took f)
    (hcall : ∀ d, st'.call d = if d = c then .allocated f [] else st.call d)
    (hslot : st'.slot = st.slot) (hmem : st'.mem = st.mem) (hpool : st'.pool = st.pool)
    (hheld : ∀ g, st'.held g = if g = f then true else st.held g)
    (hacc : st'.accepted = st.accepted)
    (hserved : ∀ g, st'.served g = if g = f then st.served f + 1 else st.served g) :
    ZeroInv st' := by
  have hf : f ≠ 0 := fun hf => (h.positive c).1 (by rw [hc, hf])
  have hfrom : st.At f (.hand c) := by rw [at_hand, hc]; rfl
  have honly : ∀ r, st.At f r → r = .hand c := fun r hr => h.once f r _ hf hr hfrom
  have hm : Moves st st' f .held := by
    intro g r hg
    have := honly r
    cases r <;> grind [ZeroCall.hand]
  have hbuf : ∀ g, g ≠ 0 → (st'.Buffered g ↔ st.Buffered g ∧ g ≠ f) := by
    intro g hg
    have hno : ∀ j, st.slot j ≠ f := fun j hj => by
      have := honly (.slot j) hj
      cases this
    have hone : ∀ d, st.call d = .took f → d = c := fun d hd => by
      have := honly (.hand d) (by rw [at_hand, hd]; rfl)
      cases this
      rfl
    unfold ZeroState.Buffered
    rw [hslot]
    grind
  refine ⟨?_, moves_once h hm, ?_, ?_, fun d => ?_, fun g hg => ?_, fun d => ?_⟩
  · have := h.noZero
    grind
  · rw [hslot]
    exact h.slots
  · rw [hslot, hmem]
    exact h.slotZero
  · have := h.handZero d
    rw [hmem]
    grind [ZeroCall.hand]
  · rw [hbuf g hg, hacc, hserved]
    have hcount := h.counts g hg
    have hin : st.Buffered f := Or.inr ⟨c, hc⟩
    grind
  · have := h.positive d
    grind

/-- `ProvideZeroedPhys` puts its frame into a slot. -/
theorem accept_inv (h : ZeroInv st) (hc : st.call c = .offering f i) (hi : i < 2)
    (hempty : st.slot i = 0)
    (hcall : ∀ d, st'.call d = if d = c then .counting f else st.call d)
    (hslot : ∀ j, st'.slot j = if j = i then f else st.slot j) (hmem : st'.mem = st.mem)
    (hpool : st'.pool = st.pool) (hheld : st'.held = st.held)
    (hacc : ∀ g, st'.accepted g = if g = f then st.accepted f + 1 else st.accepted g)
    (hserved : st'.served = st.served) : ZeroInv st' := by
  have hf : f ≠ 0 := fun hf => (h.positive c).2.2.1 i (by rw [hc, hf])
  have hfrom : st.At f (.hand c) := by rw [at_hand, hc]; rfl
  have honly : ∀ r, st.At f r → r = .hand c := fun r hr => h.once f r _ hf hr hfrom
  have hm : Moves st st' f (.slot i) := by
    intro g r hg
    have := honly r
    cases r <;> grind [ZeroCall.hand]
  have hno : ∀ j, st.slot j ≠ f := fun j hj => by
    have := honly (.slot j) hj
    cases this
  have hnone : ∀ d, st.call d ≠ .took f := fun d hd => by
    have := honly (.hand d) (by rw [at_hand, hd]; rfl)
    cases this
    rw [hc] at hd
    cases hd
  have hbuf : ∀ g, g ≠ 0 → (st'.Buffered g ↔ st.Buffered g ∨ g = f) := by
    unfold ZeroState.Buffered
    grind
  have hnew : ¬ st.Buffered f := by
    rintro (⟨j, hj⟩ | ⟨d, hd⟩)
    · exact hno j hj
    · exact hnone d hd
  have hzero : ∀ o, st.mem f o = 0 := by
    have hz := h.handZero c
    rw [hc] at hz
    exact hz hf (by simp)
  refine ⟨?_, moves_once h hm, fun j hj => ?_, fun j hj => ?_, fun d => ?_, fun g hg => ?_,
    fun d => ?_⟩
  · rw [hpool, hheld]
    exact h.noZero
  · have := h.slots j hj
    grind
  · have := h.slotZero j
    rw [hmem]
    grind [ZeroCall.hand]
  · have := h.handZero d
    rw [hmem]
    grind [ZeroCall.hand]
  · rw [hbuf g hg, hacc, hserved]
    have hcount := h.counts g hg
    grind
  · have := h.positive d
    grind

/-- A frame goes from a caller or from the pool into the hands of a call, or back. -/
theorem transfer_inv {q : FramePlace} (h : ZeroInv st) (hf : f ≠ 0)
    (hcall : ∀ d, st'.call d = st.call d ∨ st.call d = .idle ∧ st'.call d = .checking f ∨
      st.call d = .asking ∧ st'.call d = .zeroing f) (hm : Moves st st' f q)
    (hno : st'.pool 0 = false ∧ st'.held 0 = false)
    (hslot : st'.slot = st.slot) (hmem : st'.mem = st.mem)
    (hzero : ∀ d, st'.call d = .checking f → ∀ o, st.mem f o = 0)
    (hacc : st'.accepted = st.accepted) (hserved : st'.served = st.served) : ZeroInv st' := by
  have hbuf : ∀ g, st'.Buffered g ↔ st.Buffered g := by
    intro g
    unfold ZeroState.Buffered
    rw [hslot]
    grind
  refine ⟨hno, moves_once h hm, ?_, ?_, fun d => ?_, fun g hg => ?_, fun d => ?_⟩
  · rw [hslot]
    exact h.slots
  · rw [hslot, hmem]
    exact h.slotZero
  · have := h.handZero d
    have := hzero d
    rw [hmem]
    grind [ZeroCall.hand]
  · rw [hbuf g, hacc, hserved]
    exact h.counts g hg
  · have := h.positive d
    grind

/-- An owner writes to its frame. -/
theorem write_inv (h : ZeroInv st) (hheld : st.held f = true) (o v : Nat) :
    ZeroInv { st with mem := Function.update st.mem f (Function.update (st.mem f) o v) } := by
  have hf : f ≠ 0 := fun hf => by simp [hf, h.noZero.2] at hheld
  have hne : ∀ g r, g ≠ 0 → st.At g r → r ≠ .held → g ≠ f := by
    rintro g r hg hr hrh rfl
    exact hrh (h.once g r .held hf hr hheld)
  have hmem : ∀ g r, g ≠ 0 → st.At g r → r ≠ .held →
      Function.update st.mem f (Function.update (st.mem f) o v) g = st.mem g :=
    fun g r hg hr hrh => Function.update_of_ne (hne g r hg hr hrh) ..
  refine ⟨h.noZero, h.once, h.slots, fun i hi => ?_, fun c hc hz => ?_, h.counts, h.positive⟩
  · show ∀ o', Function.update st.mem f _ (st.slot i) o' = 0
    rw [hmem _ (.slot i) hi rfl (by simp)]
    exact h.slotZero i hi
  · show ∀ o', Function.update st.mem f _ (st.call c).hand o' = 0
    rw [hmem _ (.hand c) hc rfl (by simp)]
    exact h.handZero c hc hz

theorem next_inv (h : ZeroInv st) (c : Nat) : ZeroInv (st.next c) := by
  have hpos := h.positive c
  unfold ZeroState.next
  cases hc : st.call c with
  | scanning i =>
    simp only
    split
    · next hi =>
      split
      · next hs =>
        exact still_inv h (st.goto_call c _) (by rw [hc]; rfl) (by simp [hc]) (by simp [hc])
          (by simpa using hs) rfl (fun g o => Or.inl rfl) rfl rfl rfl rfl
      · exact still_inv h (st.goto_call c _) (by rw [hc]; rfl) (by simp [hc]) (by simp [hc])
          (by simp) rfl (fun g o => Or.inl rfl) rfl rfl rfl rfl
    · exact still_inv h (st.goto_call c _) (by rw [hc]; rfl) (by simp [hc]) (by simp [hc])
        (by simp) rfl (fun g o => Or.inl rfl) rfl rfl rfl rfl
  | loaded i frame =>
    simp only
    split
    · next hi =>
      exact took_inv h hc hi (st.goto_call c _) (fun j => Function.update_apply ..) rfl rfl rfl rfl
        rfl
    · exact still_inv h (st.goto_call c _) (by rw [hc]; rfl) (by simp [hc]) (by simp [hc])
        (by simp) rfl (fun g o => Or.inl rfl) rfl rfl rfl rfl
  | took frame =>
    exact serve_inv h hc (st.goto_call c _) rfl rfl rfl (fun g => Function.update_apply ..) rfl
      fun g => Function.update_apply ..
  | zeroing frame =>
    have hmem : ∀ g o, Function.update st.mem frame (fun _ => 0) g o = st.mem g o ∨
        Function.update st.mem frame (fun _ => 0) g o = 0 := by
      intro g o
      rw [Function.update_apply]
      split
      · exact Or.inr rfl
      · exact Or.inl rfl
    simp only
    by_cases hf : frame = 0
    · rw [if_pos hf]
      exact still_inv h (st.goto_call c _) (by rw [hc, hf]; rfl) (by simp [hc]) (Or.inr rfl)
        (by simp) rfl hmem rfl rfl rfl rfl
    · rw [if_neg hf]
      exact give_inv h (by rw [hc]; rfl) hf (by simp [hc]) (st.goto_call c _) rfl (by simp)
        (by simp) rfl hmem rfl (fun g => Function.update_apply ..) rfl rfl
  | checking phys =>
    have hp : phys ≠ 0 := fun hp => hpos.2.1 (by rw [hc, hp])
    simp only
    split
    · exact give_inv h (by rw [hc]; rfl) hp (by simp [hc]) (st.goto_call c _) rfl (by simp)
        (by simp) rfl (fun g o => Or.inl rfl) rfl (fun g => Function.update_apply ..) rfl rfl
    · exact still_inv h (st.goto_call c _) (by rw [hc]; rfl) (by simp [hc]) (by simp [hc])
        (by simpa using hp) rfl (fun g o => Or.inl rfl) rfl rfl rfl rfl
  | offering phys i =>
    have hp : phys ≠ 0 := fun hp => hpos.2.2.1 i (by rw [hc, hp])
    simp only
    split
    · next hi =>
      split
      · next hs =>
        exact accept_inv h hc hi hs (st.goto_call c _) (fun g => Function.update_apply ..) rfl rfl
          rfl (fun g => Function.update_apply ..) rfl
      · exact still_inv h (st.goto_call c _) (by rw [hc]; rfl) (by simp [hc]) (by simp [hc])
          (by simpa using hp) rfl (fun g o => Or.inl rfl) rfl rfl rfl rfl
    · exact still_inv h (st.goto_call c _) (by rw [hc]; rfl) (by simp [hc]) (by simp [hc])
        (by simpa using hp) rfl (fun g o => Or.inl rfl) rfl rfl rfl rfl
  | counting phys =>
    exact still_inv h (st.goto_call c _) (by rw [hc]; rfl) (by simp [hc]) (by simp [hc])
      (by simp) rfl (fun g o => Or.inl rfl) rfl rfl rfl rfl
  | closing phys =>
    have hp : phys ≠ 0 := fun hp => hpos.2.2.2.1 (by rw [hc, hp])
    exact give_inv h (by rw [hc]; rfl) hp (by simp [hc]) (st.goto_call c _) rfl (by simp)
      (by simp) rfl (fun g o => Or.inl rfl) rfl (fun g => Function.update_apply ..) rfl rfl
  | idle => exact h
  | asking => exact h
  | allocated frame wrote => exact h
  | accepted phys => exact h
  | rejected phys => exact h

theorem zeroStep_inv {fails : Prop} (h : ZeroInv st) (hstep : ZeroStep fails st st') :
    ZeroInv st' := by
  have hno := h.noZero
  cases hstep with
  | alloc c hc =>
    exact still_inv h (st.goto_call c _) (by rw [hc]; rfl) (by simp [hc]) (Or.inr rfl) (by simp) rfl
      (fun g o => Or.inl rfl) rfl rfl rfl rfl
  | provide c phys hc hheld hzero =>
    have hf : phys ≠ 0 := fun hf => by simp [hf, hno.2] at hheld
    have honly : ∀ r, st.At phys r → r = .held := fun r hr => h.once phys r _ hf hr hheld
    refine transfer_inv (f := phys) h hf (fun d => ?_) (q := .hand c) (fun g r hg => ?_)
      ⟨hno.1, ?_⟩ rfl rfl (fun d _ => hzero) rfl rfl
    · rw [ZeroState.goto_call]
      grind
    · have := honly r
      cases r <;> simp only [ZeroState.At, ZeroState.goto, Function.update_apply] <;>
        grind [ZeroCall.hand]
    · simp [ZeroState.goto, Function.update_apply, hno.2]
  | provideNull c hc =>
    exact still_inv h (st.goto_call c _) (by rw [hc]; rfl) (by simp [hc]) (Or.inr rfl) (by simp) rfl
      (fun g o => Or.inl rfl) rfl rfl rfl rfl
  | next c => exact next_inv h c
  | allocPhys c frame hc hpool =>
    have hf : frame ≠ 0 := fun hf => by simp [hf, hno.1] at hpool
    have honly : ∀ r, st.At frame r → r = .pool := fun r hr => h.once frame r _ hf hr hpool
    refine transfer_inv (f := frame) h hf (fun d => ?_) (q := .hand c) (fun g r hg => ?_)
      ⟨?_, hno.2⟩ rfl rfl (fun d hd => ?_) rfl rfl
    · rw [ZeroState.goto_call]
      grind
    · have := honly r
      cases r <;> simp only [ZeroState.At, ZeroState.goto, Function.update_apply] <;>
        grind [ZeroCall.hand]
    · simp [ZeroState.goto, Function.update_apply, hno.1]
    · rw [ZeroState.goto_call] at hd
      split at hd
      · cases hd
      · have := honly (.hand d) (by rw [at_hand, hd]; rfl)
        cases this
  | allocPhysFails c hc _ =>
    exact still_inv h (st.goto_call c _) (by rw [hc]; rfl) (by simp [hc]) (Or.inr rfl) (by simp) rfl
      (fun g o => Or.inl rfl) rfl rfl rfl rfl
  | write frame o v hheld => exact write_inv h hheld o v
  | grant frame hpool =>
    have hf : frame ≠ 0 := fun hf => by simp [hf, hno.1] at hpool
    have honly : ∀ r, st.At frame r → r = .pool := fun r hr => h.once frame r _ hf hr hpool
    refine transfer_inv (f := frame) h hf (fun d => Or.inl rfl) (q := .held) (fun g r hg => ?_)
      ⟨?_, ?_⟩ rfl rfl (fun d hd => ?_) rfl rfl
    · have := honly r
      cases r <;> simp only [ZeroState.At, Function.update_apply] <;> grind
    · simp [Function.update_apply, hno.1]
    · simpa [Function.update_apply, hno.2] using fun hf' => hf hf'.symm
    · have := honly (.hand d) (by rw [at_hand, hd]; rfl)
      cases this
  | release frame hheld =>
    have hf : frame ≠ 0 := fun hf => by simp [hf, hno.2] at hheld
    have honly : ∀ r, st.At frame r → r = .held := fun r hr => h.once frame r _ hf hr hheld
    refine transfer_inv (f := frame) h hf (fun d => Or.inl rfl) (q := .pool) (fun g r hg => ?_)
      ⟨?_, ?_⟩ rfl rfl (fun d hd => ?_) rfl rfl
    · have := honly r
      cases r <;> simp only [ZeroState.At, Function.update_apply] <;> grind
    · simpa [Function.update_apply, hno.1] using fun hf' => hf hf'.symm
    · simp [Function.update_apply, hno.2]
    · have := honly (.hand d) (by rw [at_hand, hd]; rfl)
      cases this

theorem bootZeroState_inv (frames : Nat → Bool) (mem : Nat → Nat → Nat) :
    ZeroInv (bootZeroState frames mem) := by
  refine ⟨by simp [bootZeroState], fun f p q hf hp hq => ?_, fun i _ => rfl,
    fun i hi => absurd rfl hi, fun c hc => absurd rfl hc, fun f hf => ⟨fun hb => ?_, fun _ => rfl⟩,
    fun c => by simp [bootZeroState]⟩
  · have hpool : ∀ r, (bootZeroState frames mem).At f r → r = .pool := by
      intro r hr
      cases r with
      | pool => rfl
      | held => simp [ZeroState.At, bootZeroState] at hr
      | slot i => exact absurd hr.symm hf
      | hand c => exact absurd hr.symm hf
    rw [hpool p hp, hpool q hq]
  · rcases hb with ⟨i, hi⟩ | ⟨c, hc⟩
    · exact absurd hi.symm hf
    · cases hc

/-- A call moves only itself. -/
theorem next_other {d : Nat} (hcd : c ≠ d) : (st.next d).call c = st.call c := by
  unfold ZeroState.next
  cases st.call d <;> simp only <;> (try split_ifs) <;>
    first
      | rfl
      | exact (ZeroState.goto_call ..).trans (if_neg hcd)

/-- How a call of `AllocZeroedPhys` comes to return. -/
theorem step_allocated {fails : Prop} (hstep : ZeroStep fails st st') {wrote : List Nat}
    (hnew : st'.call c = .allocated f wrote) (hold : st.call c ≠ .allocated f wrote) :
    st' = st.next c ∧ (st.call c = .took f ∧ wrote = [] ∨ st.call c = .zeroing f ∧ wrote = [f]) := by
  cases hstep with
  | next d =>
    by_cases hcd : c = d
    · subst hcd
      refine ⟨rfl, ?_⟩
      unfold ZeroState.next at hnew
      cases hc : st.call c <;> rw [hc] at hnew hold <;> simp only at hnew <;>
        (try split_ifs at hnew) <;> grind [ZeroState.goto_call]
    · exact absurd ((next_other hcd).symm.trans hnew) hold
  | _ => grind [ZeroState.goto_call]

/-- How a call of `ProvideZeroedPhys` comes to refuse its frame. -/
theorem step_rejected {fails : Prop} (hstep : ZeroStep fails st st') (hf : f ≠ 0)
    (hnew : st'.call c = .rejected f) (hold : st.call c ≠ .rejected f) :
    st' = st.next c ∧ (st.call c = .checking f ∨ st.call c = .closing f) := by
  cases hstep with
  | next d =>
    by_cases hcd : c = d
    · subst hcd
      refine ⟨rfl, ?_⟩
      unfold ZeroState.next at hnew
      cases hc : st.call c <;> rw [hc] at hnew hold <;> simp only at hnew <;>
        (try split_ifs at hnew) <;> grind [ZeroState.goto_call]
    · exact absurd ((next_other hcd).symm.trans hnew) hold
  | _ => grind [ZeroState.goto_call]

/-! ## What callers see -/

/-- What a call leaves behind once it has returned. -/
structure ZeroSound (st : ZeroState) : Prop where
  /-- A call that returned 0 has not written to any frame. -/
  nothing_written : ∀ c wrote, st.call c = .allocated 0 wrote → wrote = []
  /-- A frame that was accepted is in the buffer, or on its way out, until it is returned. -/
  returned_once : ∀ f, f ≠ 0 → (st.Buffered f → st.accepted f = st.served f + 1) ∧
    (¬ st.Buffered f → st.accepted f = st.served f)

/-- What holds when a call returns. -/
structure ReturnSound (st st' : ZeroState) : Prop where
  /-- The frame is zero, nobody had it before and its caller alone has it now. -/
  allocated : ∀ c f wrote, st'.call c = .allocated f wrote → st.call c ≠ .allocated f wrote →
    f ≠ 0 → (∀ o, st'.mem f o = 0) ∧ st.held f = false ∧ st'.OnlyHeld f
  rejected : ∀ c f, st'.call c = .rejected f → st.call c ≠ .rejected f → f ≠ 0 →
    st'.mem f = st.mem f ∧ st'.OnlyHeld f

/-- A frame that is held is nowhere else. -/
theorem onlyHeld (h : ZeroInv st) (hf : f ≠ 0) (hheld : st.held f = true) : st.OnlyHeld f :=
  fun r => ⟨fun hr => h.once f r _ hf hr hheld, fun hr => hr ▸ hheld⟩

theorem returnSound {fails : Prop} (h : ZeroInv st) (hstep : ZeroStep fails st st') :
    ReturnSound st st' := by
  have h' := zeroStep_inv h hstep
  refine ⟨fun c f wrote hnew hold hf => ?_, fun c f hnew hold hf => ?_⟩
  · obtain ⟨rfl, hc⟩ := step_allocated hstep hnew hold
    have hhand : st.At f (.hand c) := by
      rw [at_hand]
      rcases hc with ⟨hc, -⟩ | ⟨hc, -⟩ <;> rw [hc] <;> rfl
    have hnot : st.held f = false := by
      by_contra hheld
      have := h.once f (.hand c) .held hf hhand (at_held.mpr (by simpa using hheld))
      cases this
    have hzero := h.handZero c
    rcases hc with ⟨hc, rfl⟩ | ⟨hc, rfl⟩
    · rw [hc] at hzero
      have hheld : (st.next c).held f = true := by
        simp [ZeroState.next, hc, ZeroState.goto]
      refine ⟨fun o => ?_, hnot, onlyHeld h' hf hheld⟩
      have hz : st.mem f o = 0 := hzero hf (by simp) o
      simpa [ZeroState.next, hc, ZeroState.goto] using hz
    · have hheld : (st.next c).held f = true := by
        simp [ZeroState.next, hc, ZeroState.goto, hf]
      refine ⟨fun o => ?_, hnot, onlyHeld h' hf hheld⟩
      simp [ZeroState.next, hc, ZeroState.goto]
  · obtain ⟨rfl, hc⟩ := step_rejected hstep hf hnew hold
    rcases hc with hc | hc
    · have hwanted : st.wanted = 0 := by
        by_contra hw
        simp [ZeroState.next, hc, hw, ZeroState.goto_call] at hnew
      have hheld : (st.next c).held f = true := by
        simp [ZeroState.next, hc, hwanted, ZeroState.goto]
      refine ⟨?_, onlyHeld h' hf hheld⟩
      simp [ZeroState.next, hc, hwanted, ZeroState.goto]
    · have hheld : (st.next c).held f = true := by
        simp [ZeroState.next, hc, ZeroState.goto]
      refine ⟨?_, onlyHeld h' hf hheld⟩
      simp [ZeroState.next, hc, ZeroState.goto]

/-- Without a failure of `AllocPhys` no call zeroes or returns frame 0. -/
structure NoFailure (st : ZeroState) : Prop where
  zeroing : ∀ c, st.call c ≠ .zeroing 0
  written : ∀ c wrote, st.call c = .allocated 0 wrote → wrote = []

theorem noFailure_step (h : ZeroInv st) (hn : NoFailure st) (hstep : ZeroStep False st st') :
    NoFailure st' := by
  refine ⟨fun c hnew => ?_, fun c wrote hnew => ?_⟩
  · by_cases hold : st.call c = .zeroing 0
    · exact hn.zeroing c hold
    · cases hstep with
      | next d =>
        by_cases hcd : c = d
        · subst hcd
          unfold ZeroState.next at hnew
          cases hc : st.call c <;> rw [hc] at hnew hold <;> simp only at hnew <;>
            (try split_ifs at hnew) <;> grind [ZeroState.goto_call]
        · exact hold ((next_other hcd).symm.trans hnew)
      | allocPhys d frame hd hpool =>
        rw [ZeroState.goto_call] at hnew
        split at hnew
        · cases hnew
          simp [h.noZero.1] at hpool
        · exact hold hnew
      | allocPhysFails d hd hfails => exact hfails
      | _ => grind [ZeroState.goto_call]
  · by_cases hold : st.call c = .allocated 0 wrote
    · exact hn.written c wrote hold
    · obtain ⟨-, ⟨-, hw⟩ | ⟨hz, -⟩⟩ := step_allocated hstep hnew hold
      · exact hw
      · exact absurd hz (hn.zeroing c)

end Steps

/--
**Zeroed frames.** In every run in which `AllocPhys` never fails inside `AllocZeroedPhys`,
a call that returned 0 wrote to no frame, a frame is returned out of the buffer once for each
time it was accepted, and when a call returns a frame, that frame is zero and its caller's alone.
-/
theorem zeroed_frames_sound {frames : Nat → Bool} {mem : Nat → Nat → Nat} {st : ZeroState}
    (hrun : Reaches (ZeroStep False) (bootZeroState frames mem) st) :
    ZeroSound st ∧ ∀ st', ZeroStep False st st' → ReturnSound st st' := by
  have hboth : ZeroInv st ∧ NoFailure st := by
    refine hrun.invariant (P := fun st => ZeroInv st ∧ NoFailure st)
      ⟨bootZeroState_inv frames mem, ⟨fun c hc => ?_, fun c wrote hc => ?_⟩⟩ fun a b ha hab =>
        ⟨zeroStep_inv ha.1 hab, noFailure_step ha.1 ha.2 hab⟩
    · cases hc
    · cases hc
  exact ⟨⟨hboth.2.written, hboth.1.counts⟩, fun st' hstep => returnSound hboth.1 hstep⟩

/-- A frame of the pool is zeroed and returned. -/
theorem zeroed_frames_sound_fallback : ∃ st : ZeroState,
    st.call 0 = .allocated 4096 [4096] ∧ ZeroSound st := by
  let st₁ := (bootZeroState (fun f => f == 4096) fun _ _ => 1).goto 0 (.scanning 0)
  let st₂ := ((st₁.next 0).next 0).next 0
  let st₃ := { st₂ with pool := Function.update st₂.pool 4096 false }.goto 0 (.zeroing 4096)
  have h₁ : Reaches (ZeroStep False) (bootZeroState (fun f => f == 4096) fun _ _ => 1) st₁ :=
    Relation.ReflTransGen.single (.alloc _ 0 rfl)
  have h₂ : Reaches (ZeroStep False) (bootZeroState (fun f => f == 4096) fun _ _ => 1) st₂ :=
    ((h₁.tail (.next _ 0)).tail (.next _ 0)).tail (.next _ 0)
  have h₃ : Reaches (ZeroStep False) (bootZeroState (fun f => f == 4096) fun _ _ => 1) st₃ :=
    h₂.tail (.allocPhys _ 0 4096 rfl rfl)
  exact ⟨_, rfl, (zeroed_frames_sound (h₃.tail (.next _ 0))).1⟩

/--
When `AllocPhys` fails, its 0 is passed to `ZeroPhysPage`, which clears the frame at address 0.
-/
theorem failed_alloc_writes_frame_zero :
    ¬ (∀ (frames : Nat → Bool) (mem : Nat → Nat → Nat) (st : ZeroState),
      Reaches (ZeroStep True) (bootZeroState frames mem) st →
        ZeroSound st ∧ ∀ st', ZeroStep True st st' → ReturnSound st st') := by
  intro h
  let st₁ := (bootZeroState (fun _ => false) fun _ _ => 1).goto 0 (.scanning 0)
  let st₂ := ((st₁.next 0).next 0).next 0
  let st₃ := (st₂.goto 0 (.zeroing 0)).next 0
  have h₁ : Reaches (ZeroStep True) (bootZeroState (fun _ => false) fun _ _ => 1) st₁ :=
    Relation.ReflTransGen.single (.alloc _ 0 rfl)
  have h₂ : Reaches (ZeroStep True) (bootZeroState (fun _ => false) fun _ _ => 1) st₂ :=
    ((h₁.tail (.next _ 0)).tail (.next _ 0)).tail (.next _ 0)
  have h₃ : Reaches (ZeroStep True) (bootZeroState (fun _ => false) fun _ _ => 1) st₃ :=
    (h₂.tail (.allocPhysFails _ 0 rfl trivial)).tail (.next _ 0)
  have hwrote := (h _ _ _ h₃).1.nothing_written 0 [0] rfl
  cases hwrote

end Nolrem.Phys
