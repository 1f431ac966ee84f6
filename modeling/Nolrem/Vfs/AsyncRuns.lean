import Nolrem.Vfs.Async

/-!
# Stacks of aios

`Pending` is a stack of aios that waits for its device, and `Closed` is what a wait makes of it. Both
grow by a layer at a time, as `FileAccess` and `Access` build the stack and `WaitIO` takes it down.
-/

namespace Nolrem.Vfs

namespace IoState

variable {w w' : IoState} {a sub leaf code : Nat} {rest : List Nat} {tr : Transfer}

/-! ## Accesses -/

/-- Touching an aio that was not freed is not seen. -/
theorem touch_eq (h : w.frees a = 0) : w.touch a = w := by
  simp [touch, h]

theorem modify_eq (h : w.frees a = 0) (f : Aio → Aio) :
    w.modify a f = { w with aio := Function.update w.aio a (f (w.aio a)) } := by
  rw [modify, touch_eq h]

theorem signalDoneIo_eq (hf : w.frees a = 0) (hd : w.destroyed a = false) (code : Nat) :
    w.signalDoneIo a code =
      { w with
        aio := Function.update w.aio a
          { w.aio a with
            resultCode := code
            mtxHeld := false } } := by
  rw [signalDoneIo, modify_eq hf]
  simp [hd]

/-- An aio after `CreateIO` and before `WaitIO` is done with it -/
structure Fresh (w : IoState) (a : Nat) : Prop where
  completed : (w.aio a).completed = false
  drops : w.drops a = 0
  frees : w.frees a = 0
  destroyed : w.destroyed a = false

/-- What `a` is in `w'` it is in `w`. -/
structure SameAt (w w' : IoState) (a : Nat) : Prop where
  aio : w'.aio a = w.aio a
  drops : w'.drops a = w.drops a
  frees : w'.frees a = w.frees a
  destroyed : w'.destroyed a = w.destroyed a

theorem Fresh.congr (h : w.Fresh a) (hs : w.SameAt w' a) : w'.Fresh a where
  completed := by rw [hs.aio, h.completed]
  drops := by rw [hs.drops, h.drops]
  frees := by rw [hs.frees, h.frees]
  destroyed := by rw [hs.destroyed, h.destroyed]

theorem SameAt.trans {w₁ w₂ w₃ : IoState} (h : w₁.SameAt w₂ a) (h' : w₂.SameAt w₃ a) :
    w₁.SameAt w₃ a where
  aio := h'.aio.trans h.aio
  drops := h'.drops.trans h.drops
  frees := h'.frees.trans h.frees
  destroyed := h'.destroyed.trans h.destroyed

/-- No fault was made between `w` and `w'`. -/
structure NoFault (w w' : IoState) : Prop where
  used : w'.usedAfterFree = w.usedAfterFree
  signalled : w'.signalledDestroyed = w.signalledDestroyed

theorem NoFault.trans {w₁ w₂ w₃ : IoState} (h : w₁.NoFault w₂) (h' : w₂.NoFault w₃) :
    w₁.NoFault w₃ :=
  ⟨h'.used.trans h.used, h'.signalled.trans h.signalled⟩

/-! ## Stacks -/

/-- A callback of one of the layers, to `a` -/
def CallsBack (callback : AioCallback) (a : Nat) : Prop :=
  callback = .fileAccess a ∨ callback = .partitionAccess a

/-- A stack from `a` down, each aio with the next one as its `sub`. The last one has `leaf`. -/
inductive Stack (leaf : Aio → Prop) (w : IoState) : List Nat → Prop where
  | device {a : Nat} (fresh : w.Fresh a) (sub : (w.aio a).sub = none) (h : leaf (w.aio a)) :
      Stack leaf w [a]
  | layer {a sub : Nat} {rest : List Nat} (fresh : w.Fresh a) (hsub : (w.aio a).sub = some sub)
      (callback : CallsBack (w.aio sub).callback a) (notMem : a ∉ sub :: rest)
      (h : Stack leaf w (sub :: rest)) : Stack leaf w (a :: sub :: rest)

theorem Stack.notMem {leaf : Aio → Prop} (h : Stack leaf w (a :: rest)) : a ∉ rest := by
  cases h with
  | device _ _ _ => exact List.not_mem_nil
  | layer _ _ _ notMem _ => exact notMem

/-- A stack that waits for its device -/
abbrev Pending (w : IoState) : List Nat → Prop := Stack (fun _ => True) w

/-- A stack whose device is done -/
abbrev Signalled (w : IoState) (tr : Transfer) (code : Nat) : List Nat → Prop :=
  Stack (fun aio => aio.mtxHeld = false ∧ aio.transfer = tr ∧ aio.resultCode = code) w

/-! ## Submission -/

/-- `a` is now the top of a stack of new aios, and nothing else has changed. -/
structure Submitted (w : IoState) (a : Nat) (w' : IoState) (rest : List Nat) : Prop where
  pending : w'.Pending (a :: rest)
  callback : (w'.aio a).callback = (w.aio a).callback
  new : ∀ x ∈ rest, w.next ≤ x
  same : ∀ x < w.next, x ≠ a → w.SameAt w' x
  noFault : w.NoFault w'

/-- An aio that no layer has handed on. -/
structure Top (w : IoState) (a : Nat) : Prop where
  fresh : w.Fresh a
  sub : (w.aio a).sub = none
  lt : a < w.next

theorem pushSub_spec (h : w.Top a) (nodeOrFile : Nat) (tr : Transfer) (callback : AioCallback)
    (extraData : Int) :
    let w' := w.pushSub a nodeOrFile tr callback extraData
    w'.Top w.next ∧ w'.Fresh a ∧ (w'.aio a).sub = some w.next ∧
      (w'.aio a).callback = (w.aio a).callback ∧ (w'.aio w.next).callback = callback ∧
      w'.next = w.next + 1 ∧ (∀ x < w.next, x ≠ a → w.SameAt w' x) ∧ w.NoFault w' := by
  have hne : a ≠ w.next := Nat.ne_of_lt h.lt
  have hne' : w.next ≠ a := hne.symm
  have hf := h.fresh.frees
  have h1 : (({ w with next := w.next + 1 } : IoState).createIo w.next nodeOrFile tr
      callback).frees a = 0 := by simp [createIo, hne, hf]
  unfold pushSub
  dsimp only
  rw [modify_eq h1, modify_eq (by simp [createIo])]
  refine ⟨⟨⟨?_, ?_, ?_, ?_⟩, ?_, ?_⟩, ⟨?_, ?_, ?_, ?_⟩, ?_, ?_, ?_, rfl, ?_, rfl, rfl⟩
  all_goals simp [createIo, hne, hne', h.fresh.completed, h.fresh.drops, hf, h.fresh.destroyed]
  intro x hx hxa
  have hxn : x ≠ w.next := Nat.ne_of_lt hx
  constructor <;> simp [hxn, hxa]

/-- One more layer on top of a stack -/
theorem Submitted.push (h : w.Top a) {nodeOrFile : Nat} {tr : Transfer} {callback : AioCallback}
    {extraData : Int} (hc : CallsBack callback a)
    (hs : Submitted (w.pushSub a nodeOrFile tr callback extraData) w.next w' rest) :
    Submitted w a w' (w.next :: rest) := by
  obtain ⟨htop, hfresh, hsub, hcb, hcb', hnext, hsame, hfault⟩ :=
    pushSub_spec h nodeOrFile tr callback extraData
  have hne : a ≠ w.next := Nat.ne_of_lt h.lt
  have ha := hs.same a (by rw [hnext]; exact Nat.lt_succ_of_lt h.lt) hne
  have hnew : ∀ x ∈ rest, w.next + 1 ≤ x := by
    intro x hx
    rw [← hnext]
    exact hs.new x hx
  constructor
  · apply Stack.layer
    · exact hfresh.congr ha
    · rw [ha.aio, hsub]
    · rw [hs.callback, hcb']
      exact hc
    · -- the new aios are above every address that was given out
      intro hm
      rcases List.mem_cons.mp hm with hm | hm
      · exact hne hm
      · exact absurd (hnew a hm) (by have := h.lt; omega)
    · exact hs.pending
  · rw [ha.aio, hcb]
  · intro x hx
    rcases List.mem_cons.mp hx with hx | hx
    · exact Nat.le_of_eq hx.symm
    · exact Nat.le_of_succ_le (hnew x hx)
  · intro x hx hxa
    have hx' := hs.same x (by rw [hnext]; exact Nat.lt_succ_of_lt hx) (Nat.ne_of_lt hx)
    exact (hsame x hx hxa).trans hx'
  · exact hfault.trans hs.noFault

theorem Stack.fresh_of_mem {leaf : Aio → Prop} {l : List Nat} (h : Stack leaf w l) :
    ∀ x ∈ l, w.Fresh x := by
  induction h with
  | device fresh _ _ =>
    intro x hx
    rwa [List.mem_singleton.mp hx]
  | layer fresh _ _ _ _ ih =>
    intro x hx
    rcases List.mem_cons.mp hx with hx | hx
    · rwa [hx]
    · exact ih x hx

theorem deviceDone_eq (h : w.Fresh leaf) (tr : Transfer) (code : Nat) :
    w.deviceDone leaf tr code =
      { w with
        aio := Function.update w.aio leaf
          { w.aio leaf with
            transfer := tr
            resultCode := code
            mtxHeld := false } } := by
  rw [deviceDone, modify_eq h.frees, signalDoneIo_eq (by exact h.frees) (by exact h.destroyed)]
  simp

/-- Once the device is done, the stack can be waited for. -/
theorem Stack.deviceDone {l : List Nat} (h : w.Pending l) (hl : l.getLast? = some leaf)
    (tr : Transfer) (code : Nat) : (w.deviceDone leaf tr code).Signalled tr code l := by
  have hf : w.Fresh leaf := h.fresh_of_mem leaf (List.mem_of_getLast? hl)
  rw [deviceDone_eq hf]
  induction h with
  | device fresh hsub _ =>
    cases hl
    apply Stack.device
    · exact ⟨by simp [fresh.completed], fresh.drops, fresh.frees, fresh.destroyed⟩
    · simp [hsub]
    · simp
  | @layer a sub rest fresh hsub callback notMem h ih =>
    have hl' : (sub :: rest).getLast? = some leaf := by
      rwa [List.getLast?_cons_cons] at hl
    have hne : a ≠ leaf := by
      intro he
      exact notMem (he ▸ List.mem_of_getLast? hl')
    apply Stack.layer
    · exact ⟨by simp [hne, fresh.completed], fresh.drops, fresh.frees, fresh.destroyed⟩
    · simp [hne, hsub]
    · by_cases hs : sub = leaf
      · subst hs
        simpa using callback
      · simpa [hs] using callback
    · exact notMem
    · exact ih hl'

/-- The transfer that a callback leaves in the outer aio -/
def passUp (callback : AioCallback) (outer inner : Transfer) (extraData : Int) (code : Nat) :
    Transfer :=
  match callback with
  | .partitionAccess _ => if code = 0 then partitionTransfer outer inner extraData else outer
  | _ => inner

theorem complete_eq (h : w.frees a = 0) :
    w.complete a =
      { w with
        aio := Function.update w.aio a { w.aio a with completed := true }
        drops := Function.update w.drops a (w.drops a + 1)
        destroyed := Function.update w.destroyed a true } := by
  rw [complete, modify_eq h]

theorem runCallback_eq {callback : AioCallback} (hcb : CallsBack callback a) (hne : sub ≠ a)
    (hsub : (w.aio a).sub = some sub) (hfa : w.frees a = 0) (hda : w.destroyed a = false)
    (hfs : w.frees sub = 0) :
    w.runCallback callback =
      { w with
        aio := Function.update w.aio a
          { w.aio a with
            transfer := passUp callback (w.aio a).transfer (w.aio sub).transfer
              (w.aio sub).extraData (w.aio sub).resultCode
            resultCode := (w.aio sub).resultCode
            mtxHeld := false }
        frees := Function.update w.frees sub 1 } := by
  rcases hcb with hcb | hcb
  · subst hcb
    simp only [runCallback, hsub, passUp]
    rw [touch_eq hfs, modify_eq hfa, signalDoneIo_eq (by exact hfa) (by exact hda)]
    simp [freeHeap, hne, hfs, hsub]
  · subst hcb
    simp only [runCallback, hsub, passUp]
    rw [touch_eq hfs, modify_eq hfa, touch_eq hfa]
    split
    next hc =>
      rw [signalDoneIo_eq (by exact hfa) (by exact hda)]
      simp [freeHeap, hne, hfs, hc, hsub]
    next hc =>
      rw [signalDoneIo_eq (by exact hfa) (by exact hda)]
      simp [freeHeap, hfs, hsub]

/-- `w'` is `w` with the stack under `a` waited for, and `a` too up to its callback. -/
structure Closed (w : IoState) (a : Nat) (rest : List Nat) (code : Nat) (tr : Transfer)
    (w' : IoState) : Prop where
  aio : w'.aio a =
    { w.aio a with
      completed := true
      transfer := tr
      resultCode := code
      mtxHeld := false }
  drops : ∀ x ∈ a :: rest, w'.drops x = 1
  frees : ∀ x ∈ rest, w'.frees x = 1
  frees_top : w'.frees a = 0
  same : ∀ x, x ∉ a :: rest → w.SameAt w' x
  noFault : w.NoFault w'

/-- The callback of `sub` signals `a`, which is then closed as well. -/
theorem Closed.layer {w₁ : IoState} (h : Closed w sub rest code tr w₁) (fresh : w.Fresh a)
    (hsub : (w.aio a).sub = some sub) (hcb : CallsBack (w.aio sub).callback a)
    (hn : a ∉ sub :: rest) (hn' : sub ∉ rest) :
    let w₂ := w₁.runCallback (w.aio sub).callback
    let up := passUp (w.aio sub).callback (w.aio a).transfer tr (w.aio sub).extraData code
    w₂.aio a =
        { w.aio a with
          transfer := up
          resultCode := code
          mtxHeld := false } ∧
      Closed w a (sub :: rest) code up (w₂.complete a) := by
  have ha := h.same a hn
  have hne : sub ≠ a := fun he => hn (he ▸ List.mem_cons_self)
  have hfa := fresh.congr ha
  have he := runCallback_eq hcb hne (ha.aio ▸ hsub) hfa.frees hfa.destroyed h.frees_top
  rw [h.aio, ha.aio] at he
  dsimp only at he ⊢
  rw [he, complete_eq (by simp [hne.symm, hfa.frees])]
  refine ⟨by simp, ?_, ?_, ?_, ?_, ?_, ?_⟩
  · simp
  · intro x hx
    rcases List.mem_cons.mp hx with hx | hx
    · simp [hx, hfa.drops]
    · have hxa : x ≠ a := fun e => hn (e ▸ hx)
      simp [hxa, h.drops x hx]
  · intro x hx
    rcases List.mem_cons.mp hx with hx | hx
    · simp [hx]
    · have hxs : x ≠ sub := fun e => hn' (e ▸ hx)
      simp [hxs, h.frees x hx]
  · simp [hne.symm, hfa.frees]
  · intro x hx
    rw [List.mem_cons, not_or] at hx
    have hxs : x ≠ sub := fun e => hx.2 (e ▸ List.mem_cons_self)
    have hs := h.same x hx.2
    constructor <;> simp [hx.1, hxs, hs.aio, hs.drops, hs.frees, hs.destroyed]
  · exact ⟨h.noFault.used, h.noFault.signalled⟩

end IoState

end Nolrem.Vfs
