import Nolrem.Lib.Count
import Nolrem.Lib.Ring
import Nolrem.Lib.Transition

/-!
# Message boxes

The ring of `kernel/sync/msgbox.c` with its two semaphores and its mutex. A call is a small
program whose steps are the operations on a semaphore or the mutex, and the body that it runs
while it holds the mutex. The threads are the numbers below a bound.
-/

namespace Nolrem.Sync

open Nolrem.Lib

/-! ## The code -/

variable {β μ : Type} [DecidableEq β] [DecidableEq μ]

/--
`struct msgbox`. A semaphore is its `count`, which goes up when a unit is acquired. `accepted`
and `delivered` are not in the code: the messages that were put into the box, with what replaced
them, and those that were removed from it.
-/
structure MsgBox (μ : Type) where
  /-- `data` -/
  slot : Nat → μ
  startIdx : Nat
  endIdx : Nat
  count : Nat
  emptySem : Nat
  filledSem : Nat
  /-- `lock` -/
  mutex : Nat
  accepted : List μ
  delivered : List μ

/-- `CreateMessageBox` -/
def createMessageBox (maxCount : Nat) (slot : Nat → μ) : MsgBox μ :=
  { slot, startIdx := 0, endIdx := 0, count := 0, emptySem := 0, filledSem := maxCount
    mutex := 0, accepted := [], delivered := [] }

/-- What a caller puts: a message, or one that replaces the last if that is `compareTo`. -/
inductive Put (μ : Type) where
  | postMessage (msg : μ)
  | tryReplaceOrAdd (compareTo replaceWith : μ)

/-- The part of `KePostMessage` and `KeTryReplaceOrAdd` that adds a message. -/
def MsgBox.add (maxCount : Nat) (mbox : MsgBox μ) (msg : μ) : MsgBox μ :=
  { mbox with
    slot := Function.update mbox.slot mbox.endIdx msg
    endIdx := (mbox.endIdx + 1) % maxCount
    count := mbox.count + 1
    accepted := mbox.accepted ++ [msg] }

/-- `tail` -/
def MsgBox.tail (maxCount : Nat) (mbox : MsgBox μ) : Nat := (mbox.endIdx + maxCount - 1) % maxCount

def MsgBox.replaceTail (maxCount : Nat) (mbox : MsgBox μ) (msg : μ) : MsgBox μ :=
  { mbox with
    slot := Function.update mbox.slot (mbox.tail maxCount) msg
    accepted := mbox.accepted.dropLast ++ [msg] }

/-- The body of `KePostMessage` and `KeTryReplaceOrAdd`, and whether it added a message. -/
def MsgBox.put (maxCount : Nat) (mbox : MsgBox μ) : Put μ → MsgBox μ × Bool
  | .postMessage msg => (mbox.add maxCount msg, true)
  | .tryReplaceOrAdd compareTo replaceWith =>
    if mbox.count ≠ 0 ∧ mbox.slot (mbox.tail maxCount) = compareTo then
      (mbox.replaceTail maxCount replaceWith, false)
    else (mbox.add maxCount replaceWith, true)

/-- The body of `KeGetMessageFromMany`. -/
def MsgBox.get (maxCount : Nat) (mbox : MsgBox μ) (remove : Bool) : MsgBox μ :=
  if remove then
    { mbox with
      startIdx := (mbox.startIdx + 1) % maxCount
      count := mbox.count - 1
      delivered := mbox.delivered ++ [mbox.slot mbox.startIdx] }
  else mbox

/-- Where a call is. -/
inductive MsgCall (β μ : Type) where
  | idle
  /-- `AcquireSem` on `empty_sem` -/
  | waitEmpty (mbox : β) (put : Put μ)
  /-- `AcquireMutex`, with a unit of `empty_sem` -/
  | lockPut (mbox : β) (put : Put μ)
  | put (mbox : β) (put : Put μ)
  /-- `AcquireSemFromMany` -/
  | waitFilled (mboxes : List β) (remove : Bool)
  | lockGet (mbox : β) (remove : Bool)
  | get (mbox : β) (remove : Bool)
  /-- `ReleaseMutex`, and then `filled_sem` or `empty_sem` -/
  | unlock (mbox : β) (filled : Bool)
  | release (mbox : β) (filled : Bool)

structure MsgState (β μ : Type) where
  box : β → MsgBox μ
  call : Nat → MsgCall β μ

/-- A thread goes on to another place in its call and changes one box. -/
def MsgState.move (st : MsgState β μ) (t : Nat) (call : MsgCall β μ) (b : β) (mbox : MsgBox μ) :
    MsgState β μ :=
  { box := Function.update st.box b mbox, call := Function.update st.call t call }

/-- A step of thread `t`. A semaphore may be waited for in vain, and a mutex too. -/
inductive MsgStep (maxCount : β → Nat) (st : MsgState β μ) (t : Nat) : MsgState β μ → Prop where
  | callPut (h : st.call t = .idle) (b : β) (p : Put μ) :
      MsgStep maxCount st t (st.move t (.waitEmpty b p) b (st.box b))
  | callGet (h : st.call t = .idle) (bs : List β) (remove : Bool) (b : β) (hb : b ∈ bs) :
      MsgStep maxCount st t (st.move t (.waitFilled bs remove) b (st.box b))
  | acquireEmpty {b : β} {p : Put μ} (h : st.call t = .waitEmpty b p)
      (hroom : (st.box b).emptySem < maxCount b) :
      MsgStep maxCount st t (st.move t (.lockPut b p) b
        { st.box b with emptySem := (st.box b).emptySem + 1 })
  | noEmpty {b : β} {p : Put μ} (h : st.call t = .waitEmpty b p) :
      MsgStep maxCount st t (st.move t .idle b (st.box b))
  | acquireFilled {bs : List β} {remove : Bool} (h : st.call t = .waitFilled bs remove) {b : β}
      (hb : b ∈ bs) (hroom : (st.box b).filledSem < maxCount b) :
      MsgStep maxCount st t (st.move t (.lockGet b remove) b
        { st.box b with filledSem := (st.box b).filledSem + 1 })
  | noFilled {bs : List β} {remove : Bool} (h : st.call t = .waitFilled bs remove) (b : β) :
      MsgStep maxCount st t (st.move t .idle b (st.box b))
  | lockPut {b : β} {p : Put μ} (h : st.call t = .lockPut b p) (hfree : (st.box b).mutex < 1) :
      MsgStep maxCount st t (st.move t (.put b p) b
        { st.box b with mutex := (st.box b).mutex + 1 })
  | noLockPut {b : β} {p : Put μ} (h : st.call t = .lockPut b p) :
      MsgStep maxCount st t (st.move t (.release b false) b (st.box b))
  | put {b : β} {p : Put μ} (h : st.call t = .put b p) :
      MsgStep maxCount st t (st.move t (.unlock b ((st.box b).put (maxCount b) p).2) b
        ((st.box b).put (maxCount b) p).1)
  | lockGet {b : β} {remove : Bool} (h : st.call t = .lockGet b remove)
      (hfree : (st.box b).mutex < 1) :
      MsgStep maxCount st t (st.move t (.get b remove) b
        { st.box b with mutex := (st.box b).mutex + 1 })
  | noLockGet {b : β} {remove : Bool} (h : st.call t = .lockGet b remove) :
      MsgStep maxCount st t (st.move t (.release b true) b (st.box b))
  | get {b : β} {remove : Bool} (h : st.call t = .get b remove) :
      MsgStep maxCount st t (st.move t (.unlock b !remove) b
        ((st.box b).get (maxCount b) remove))
  | unlock {b : β} {filled : Bool} (h : st.call t = .unlock b filled) :
      MsgStep maxCount st t (st.move t (.release b filled) b
        { st.box b with mutex := (st.box b).mutex - 1 })
  | releaseEmpty {b : β} (h : st.call t = .release b false) :
      MsgStep maxCount st t (st.move t .idle b
        { st.box b with emptySem := (st.box b).emptySem - 1 })
  | releaseFilled {b : β} (h : st.call t = .release b true) :
      MsgStep maxCount st t (st.move t .idle b
        { st.box b with filledSem := (st.box b).filledSem - 1 })

/-! ## What the boxes promise -/

/-- The messages in the box, the oldest first. -/
def MsgBox.contents (maxCount : Nat) (mbox : MsgBox μ) : List μ :=
  ring mbox.slot maxCount mbox.startIdx mbox.count

/-- The slot holds a message that was not removed yet. -/
def MsgBox.Occupied (maxCount : Nat) (mbox : MsgBox μ) (i : Nat) : Prop :=
  ∃ k < mbox.count, (mbox.startIdx + k) % maxCount = i

/-- What holds of every state, with `n` threads. -/
structure MsgboxSound (maxCount : β → Nat) (n : Nat) (st : MsgState β μ) : Prop where
  /-- No call is under way. -/
  quiet : (∀ t < n, st.call t = .idle) → ∀ b,
    ((st.box b).count = ((st.box b).endIdx + maxCount b - (st.box b).startIdx) % maxCount b ∨
      (st.box b).count = maxCount b ∧ (st.box b).endIdx = (st.box b).startIdx) ∧
    (st.box b).emptySem = (st.box b).count ∧
    (st.box b).filledSem = maxCount b - (st.box b).count
  /-- Each message that was accepted was removed or is in the box, in the order of insertion. -/
  fifo : ∀ b, (st.box b).accepted = (st.box b).delivered ++ (st.box b).contents (maxCount b)
  /-- A message is added to an empty slot. -/
  add : ∀ t < n, ∀ b p, st.call t = .put b p →
    ¬ (st.box b).Occupied (maxCount b) (st.box b).endIdx
  /-- What is delivered, or looked at, is the oldest message in the box. -/
  get : ∀ t < n, ∀ b remove, st.call t = .get b remove →
    ((st.box b).contents (maxCount b)).head? = some ((st.box b).slot (st.box b).startIdx)

/-! ## One box -/

/--
A box, where `e` calls hold a unit of `empty_sem` that is not the unit of a message in the box,
`f` calls one of `filled_sem`, and `i` calls the mutex.
-/
structure BoxInv (maxCount : Nat) (mbox : MsgBox μ) (e f i : Nat) : Prop where
  start : mbox.startIdx < maxCount
  endIdx : mbox.endIdx = (mbox.startIdx + mbox.count) % maxCount
  empty : mbox.emptySem = mbox.count + e
  filled : mbox.filledSem + mbox.count = maxCount + f
  mutex : mbox.mutex = i
  emptyLe : mbox.emptySem ≤ maxCount
  filledLe : mbox.filledSem ≤ maxCount
  fifo : mbox.accepted = mbox.delivered ++ mbox.contents maxCount

section Box

variable {maxCount e f i e' f' i' : Nat} {mbox : MsgBox μ} {msg : μ}

omit [DecidableEq μ] in
theorem boxInv_create (hmax : 0 < maxCount) (slot : Nat → μ) :
    BoxInv maxCount (createMessageBox maxCount slot) 0 0 0 :=
  ⟨hmax, by simp [createMessageBox], rfl, rfl, rfl, Nat.zero_le _, le_rfl, rfl⟩

omit [DecidableEq μ] in
/-- Only the semaphores and the mutex change. -/
theorem BoxInv.counters (h : BoxInv maxCount mbox e f i) {es fs mu : Nat}
    (hnew : mbox.emptySem = mbox.count + e → mbox.filledSem + mbox.count = maxCount + f →
      mbox.mutex = i → mbox.emptySem ≤ maxCount → mbox.filledSem ≤ maxCount →
      es = mbox.count + e' ∧ fs + mbox.count = maxCount + f' ∧ mu = i' ∧ es ≤ maxCount ∧
        fs ≤ maxCount) :
    BoxInv maxCount { mbox with emptySem := es, filledSem := fs, mutex := mu } e' f' i' := by
  obtain ⟨he, hf, hi, hes, hfs⟩ := hnew h.empty h.filled h.mutex h.emptyLe h.filledLe
  exact ⟨h.start, h.endIdx, he, hf, hi, hes, hfs, h.fifo⟩

omit [DecidableEq μ] in
theorem BoxInv.add (h : BoxInv maxCount mbox (e + 1) f i) :
    BoxInv maxCount (mbox.add maxCount msg) e (f + 1) i := by
  have hempty := h.empty
  have hle := h.emptyLe
  have hfilled := h.filled
  refine ⟨h.start, ?_, ?_, ?_, h.mutex, h.emptyLe, h.filledLe, ?_⟩
  · show (mbox.endIdx + 1) % maxCount = (mbox.startIdx + (mbox.count + 1)) % maxCount
    rw [h.endIdx, Nat.mod_add_mod, Nat.add_assoc]
  · show mbox.emptySem = mbox.count + 1 + e
    omega
  · show mbox.filledSem + (mbox.count + 1) = maxCount + (f + 1)
    omega
  · show mbox.accepted ++ [msg] = mbox.delivered ++
      ring (Function.update mbox.slot mbox.endIdx msg) maxCount mbox.startIdx (mbox.count + 1)
    rw [h.endIdx, ring_push (by omega), h.fifo, List.append_assoc]
    rfl

omit [DecidableEq μ] in
/-- The tail is the slot of the newest message. -/
theorem BoxInv.tail_eq (h : BoxInv maxCount mbox e f i) (hcount : mbox.count ≠ 0) :
    mbox.tail maxCount = (mbox.startIdx + (mbox.count - 1)) % maxCount := by
  have hstart := h.start
  unfold MsgBox.tail
  rw [h.endIdx, Nat.add_sub_assoc (by omega), Nat.mod_add_mod]
  have hsum : mbox.startIdx + mbox.count + (maxCount - 1) =
      mbox.startIdx + (mbox.count - 1) + maxCount := by omega
  rw [hsum, Nat.add_mod_right]

omit [DecidableEq μ] in
/-- The newest message is the last that was accepted. -/
theorem BoxInv.accepted_tail (h : BoxInv maxCount mbox e f i) (hcount : mbox.count ≠ 0) :
    mbox.accepted = mbox.delivered ++ ring mbox.slot maxCount mbox.startIdx (mbox.count - 1) ++
      [mbox.slot (mbox.tail maxCount)] := by
  obtain ⟨k, hk⟩ := Nat.exists_eq_succ_of_ne_zero hcount
  rw [h.fifo, h.tail_eq hcount, List.append_assoc]
  unfold MsgBox.contents
  rw [hk, Nat.succ_sub_one, ring]

omit [DecidableEq μ] in
theorem BoxInv.replaceTail (h : BoxInv maxCount mbox e f i) (hcount : mbox.count ≠ 0) :
    BoxInv maxCount (mbox.replaceTail maxCount msg) e f i := by
  have hempty := h.empty
  have hle := h.emptyLe
  obtain ⟨k, hk⟩ := Nat.exists_eq_succ_of_ne_zero hcount
  refine ⟨h.start, h.endIdx, h.empty, h.filled, h.mutex, h.emptyLe, h.filledLe, ?_⟩
  show mbox.accepted.dropLast ++ [msg] = mbox.delivered ++
    ring (Function.update mbox.slot (mbox.tail maxCount) msg) maxCount mbox.startIdx mbox.count
  rw [h.accepted_tail hcount, List.dropLast_concat, h.tail_eq hcount, hk, Nat.succ_sub_one,
    Nat.succ_eq_add_one, ring_push (by omega), List.append_assoc]

omit [DecidableEq μ] in
/-- There is a message for each call that holds a unit of `filled_sem` to take one. -/
theorem BoxInv.count_pos (h : BoxInv maxCount mbox e (f + 1) i) : 0 < mbox.count := by
  have hfilled := h.filled
  have hle := h.filledLe
  omega

omit [DecidableEq μ] in
theorem BoxInv.contents_eq (h : BoxInv maxCount mbox e f i) (hpos : 0 < mbox.count) :
    mbox.contents maxCount = mbox.slot mbox.startIdx ::
      ring mbox.slot maxCount ((mbox.startIdx + 1) % maxCount) (mbox.count - 1) := by
  obtain ⟨k, hk⟩ := Nat.exists_eq_succ_of_ne_zero (by omega : mbox.count ≠ 0)
  unfold MsgBox.contents
  rw [hk, Nat.succ_eq_add_one, ring_pop, Nat.mod_eq_of_lt h.start, Nat.add_sub_cancel]

omit [DecidableEq μ] in
theorem BoxInv.remove (h : BoxInv maxCount mbox e (f + 1) i) :
    BoxInv maxCount (mbox.get maxCount true) (e + 1) f i := by
  have hpos := h.count_pos
  have hempty := h.empty
  have hfilled := h.filled
  have hstart := h.start
  refine ⟨Nat.mod_lt _ (by omega), ?_, ?_, ?_, h.mutex, h.emptyLe, h.filledLe, ?_⟩
  · show mbox.endIdx = ((mbox.startIdx + 1) % maxCount + (mbox.count - 1)) % maxCount
    rw [Nat.mod_add_mod, h.endIdx]
    congr 1
    omega
  · show mbox.emptySem = mbox.count - 1 + (e + 1)
    omega
  · show mbox.filledSem + (mbox.count - 1) = maxCount + f
    omega
  · show mbox.accepted = mbox.delivered ++ [mbox.slot mbox.startIdx] ++
      ring mbox.slot maxCount ((mbox.startIdx + 1) % maxCount) (mbox.count - 1)
    rw [h.fifo, h.contents_eq hpos, List.append_assoc]
    rfl

omit [DecidableEq μ] in
/-- The slot after the newest message is empty as long as there is room. -/
theorem BoxInv.end_not_occupied (h : BoxInv maxCount mbox (e + 1) f i) :
    ¬ mbox.Occupied maxCount mbox.endIdx := by
  rintro ⟨k, hk, heq⟩
  have hempty := h.empty
  have hle := h.emptyLe
  rw [h.endIdx] at heq
  exact ring_slot_ne hk (by omega) heq

end Box

/-! ## Calls -/

/-- The call holds a unit of `empty_sem` that no message in the box accounts for. -/
def MsgCall.holdsEmpty (b : β) : MsgCall β μ → Bool
  | .lockPut b' _ | .put b' _ | .unlock b' false | .release b' false => b' = b
  | _ => false

/-- The call holds a unit of `filled_sem`, or has yet to give back the unit of a message. -/
def MsgCall.holdsFilled (b : β) : MsgCall β μ → Bool
  | .lockGet b' _ | .get b' _ | .unlock b' true | .release b' true => b' = b
  | _ => false

/-- The call holds the mutex. -/
def MsgCall.inside (b : β) : MsgCall β μ → Bool
  | .put b' _ | .get b' _ | .unlock b' _ => b' = b
  | _ => false

/-- How many of the first `n` threads are in calls with a property. -/
def countCalls (n : Nat) (call : Nat → MsgCall β μ) (p : MsgCall β μ → Bool) : Nat :=
  Nat.count (fun t => p (call t) = true) n

/-- The invariant of the system. -/
def MsgInv (maxCount : β → Nat) (n : Nat) (st : MsgState β μ) : Prop :=
  ∀ b, BoxInv (maxCount b) (st.box b) (countCalls n st.call (MsgCall.holdsEmpty b))
    (countCalls n st.call (MsgCall.holdsFilled b)) (countCalls n st.call (MsgCall.inside b))

section Calls

variable {maxCount : β → Nat} {n t : Nat} {st : MsgState β μ} {c c' : MsgCall β μ} {b : β}

omit [DecidableEq β] [DecidableEq μ] in
/-- The count when one thread goes on. -/
theorem countCalls_update (c' : MsgCall β μ) (ht : t < n) (hc : st.call t = c) (p : MsgCall β μ → Bool) :
    countCalls n (Function.update st.call t c') p + (p c).toNat =
      countCalls n st.call p + (p c').toNat := by
  have hchange := count_change (p := fun j => p (st.call j) = true)
    (q := fun j => p (Function.update st.call t c' j) = true) ht fun j hj => by
      rw [Function.update_of_ne hj]
  rw [hc, Function.update_self] at hchange
  unfold countCalls
  cases hp : p c <;> cases hp' : p c' <;> rw [hp, hp'] at hchange <;> simpa using hchange

omit [DecidableEq β] [DecidableEq μ] in
theorem one_le_countCalls (ht : t < n) (hc : st.call t = c) {p : MsgCall β μ → Bool}
    (hp : p c = true) : ∃ k, countCalls n st.call p = k + 1 := by
  have hpos : 0 < countCalls n st.call p := count_pos_iff.mpr ⟨t, ht, by rw [hc]; exact hp⟩
  exact Nat.exists_eq_succ_of_ne_zero (by omega)

/-- The call is about box `b` and no other. -/
def MsgCall.Only (b : β) (c : MsgCall β μ) : Prop :=
  ∀ b', b' ≠ b → c.holdsEmpty b' = false ∧ c.holdsFilled b' = false ∧ c.inside b' = false

/-- The box of which the call holds a unit. -/
def MsgCall.box? : MsgCall β μ → Option β
  | .idle | .waitEmpty _ _ | .waitFilled _ _ => none
  | .lockPut b _ | .put b _ | .lockGet b _ | .get b _ | .unlock b _ | .release b _ => some b

omit [DecidableEq μ] in
theorem MsgCall.Only.of_box (h : ∀ b', c.box? = some b' → b' = b) : c.Only b := by
  intro b' hb
  cases c with
  | idle => exact ⟨rfl, rfl, rfl⟩
  | waitEmpty b'' p => exact ⟨rfl, rfl, rfl⟩
  | waitFilled bs remove => exact ⟨rfl, rfl, rfl⟩
  | lockPut b'' p => exact ⟨decide_eq_false (by rw [h b'' rfl]; exact hb.symm), rfl, rfl⟩
  | put b'' p =>
    have hne : b'' ≠ b' := by rw [h b'' rfl]; exact hb.symm
    exact ⟨decide_eq_false hne, rfl, decide_eq_false hne⟩
  | lockGet b'' remove => exact ⟨rfl, decide_eq_false (by rw [h b'' rfl]; exact hb.symm), rfl⟩
  | get b'' remove =>
    have hne : b'' ≠ b' := by rw [h b'' rfl]; exact hb.symm
    exact ⟨rfl, decide_eq_false hne, decide_eq_false hne⟩
  | unlock b'' filled =>
    have hne : b'' ≠ b' := by rw [h b'' rfl]; exact hb.symm
    cases filled <;> exact ⟨by simp [MsgCall.holdsEmpty, hne], by simp [MsgCall.holdsFilled, hne],
      decide_eq_false hne⟩
  | release b'' filled =>
    have hne : b'' ≠ b' := by rw [h b'' rfl]; exact hb.symm
    cases filled <;> exact ⟨by simp [MsgCall.holdsEmpty, hne], by simp [MsgCall.holdsFilled, hne], rfl⟩

omit [DecidableEq μ] in
/-- One thread goes on: what is left to show is about one box. -/
theorem MsgInv.move (h : MsgInv maxCount n st) (ht : t < n) (hc : st.call t = c)
    (honly : c.Only b) (honly' : c'.Only b) {mbox : MsgBox μ}
    (hbox : ∀ e f i e' f' i', BoxInv (maxCount b) (st.box b) e f i →
      e' + (c.holdsEmpty b).toNat = e + (c'.holdsEmpty b).toNat →
      f' + (c.holdsFilled b).toNat = f + (c'.holdsFilled b).toNat →
      i' + (c.inside b).toNat = i + (c'.inside b).toNat → BoxInv (maxCount b) mbox e' f' i') :
    MsgInv maxCount n (st.move t c' b mbox) := by
  intro b'
  have hcount := fun p => countCalls_update c' ht hc p
  by_cases hb : b' = b
  · subst hb
    show BoxInv _ (Function.update st.box b' mbox b') _ _ _
    rw [Function.update_self]
    exact hbox _ _ _ _ _ _ (h b') (hcount _) (hcount _) (hcount _)
  · obtain ⟨he, hf, hi⟩ := honly b' hb
    obtain ⟨he', hf', hi'⟩ := honly' b' hb
    have h1 := hcount (MsgCall.holdsEmpty b')
    have h2 := hcount (MsgCall.holdsFilled b')
    have h3 := hcount (MsgCall.inside b')
    rw [he, he', Bool.toNat_false, Nat.add_zero, Nat.add_zero] at h1
    rw [hf, hf', Bool.toNat_false, Nat.add_zero, Nat.add_zero] at h2
    rw [hi, hi', Bool.toNat_false, Nat.add_zero, Nat.add_zero] at h3
    unfold MsgState.move
    simp only [h1, h2, h3, Function.update_of_ne hb]
    exact h b'

omit [DecidableEq μ] in
/-- One thread goes on and leaves the box alone. -/
theorem MsgInv.stay (h : MsgInv maxCount n st) (ht : t < n) (hc : st.call t = c)
    (honly : c.Only b) (honly' : c'.Only b) (he : c'.holdsEmpty b = c.holdsEmpty b)
    (hf : c'.holdsFilled b = c.holdsFilled b) (hi : c'.inside b = c.inside b) :
    MsgInv maxCount n (st.move t c' b (st.box b)) := by
  refine h.move ht hc honly honly' fun e f i e' f' i' hx he' hf' hi' => ?_
  rw [he, Nat.add_right_cancel_iff] at he'
  rw [hf, Nat.add_right_cancel_iff] at hf'
  rw [hi, Nat.add_right_cancel_iff] at hi'
  rw [he', hf', hi']
  exact hx

omit [DecidableEq μ] in
/-- One thread goes on and acquires or releases what its two places in the call differ by. -/
theorem MsgInv.units (h : MsgInv maxCount n st) (ht : t < n) (hc : st.call t = c)
    (honly : c.Only b) (honly' : c'.Only b) {es fs mu : Nat}
    (he : es = (st.box b).emptySem + (c'.holdsEmpty b).toNat - (c.holdsEmpty b).toNat)
    (hf : fs = (st.box b).filledSem + (c'.holdsFilled b).toNat - (c.holdsFilled b).toNat)
    (hi : mu = (st.box b).mutex + (c'.inside b).toNat - (c.inside b).toNat)
    (hempty : (st.box b).emptySem ≤ maxCount b → es ≤ maxCount b)
    (hfilled : (st.box b).filledSem ≤ maxCount b → fs ≤ maxCount b) :
    MsgInv maxCount n
      (st.move t c' b { st.box b with emptySem := es, filledSem := fs, mutex := mu }) := by
  refine h.move ht hc honly honly' fun e f i e' f' i' hx he' hf' hi' =>
    hx.counters fun h1 h2 h3 h4 h5 => ?_
  have h6 := hempty h4
  have h7 := hfilled h5
  omega

/-- A step of any thread keeps the invariant. -/
theorem MsgInv.step (h : MsgInv maxCount n st) (ht : t < n) {st' : MsgState β μ}
    (hstep : MsgStep maxCount st t st') : MsgInv maxCount n st' := by
  cases hstep with
  | callPut hc b p => exact h.stay ht hc (.of_box nofun) (.of_box nofun) rfl rfl rfl
  | callGet hc bs remove b hb => exact h.stay ht hc (.of_box nofun) (.of_box nofun) rfl rfl rfl
  | @acquireEmpty b p hc hroom =>
    exact h.units ht hc (.of_box nofun) (.of_box (by simp [MsgCall.box?]))
      (by simp [MsgCall.holdsEmpty]) rfl rfl (fun _ => hroom) id
  | @noEmpty b p hc => exact h.stay ht hc (.of_box nofun) (.of_box nofun) rfl rfl rfl
  | @acquireFilled bs remove hc b hb hroom =>
    exact h.units ht hc (.of_box nofun) (.of_box (by simp [MsgCall.box?]))
      rfl (by simp [MsgCall.holdsFilled]) rfl id (fun _ => hroom)
  | @noFilled bs remove hc b => exact h.stay ht hc (.of_box nofun) (.of_box nofun) rfl rfl rfl
  | @lockPut b p hc hfree =>
    exact h.units ht hc (.of_box (by simp [MsgCall.box?])) (.of_box (by simp [MsgCall.box?]))
      (by simp [MsgCall.holdsEmpty]) rfl (by simp [MsgCall.inside]) id id
  | @noLockPut b p hc =>
    exact h.stay ht hc (.of_box (by simp [MsgCall.box?])) (.of_box (by simp [MsgCall.box?]))
      rfl rfl rfl
  | @put b p hc =>
    refine h.move ht hc (.of_box (by simp [MsgCall.box?]))
      (.of_box (by simp [MsgCall.box?])) fun e f i e' f' i' hx he hf hi => ?_
    have hadd : ∀ msg, ((st.box b).put (maxCount b) p).2 = true →
        BoxInv (maxCount b) ((st.box b).add (maxCount b) msg) e' f' i' := by
      intro msg hfilled
      rw [hfilled] at he hf hi
      simp [MsgCall.holdsEmpty, MsgCall.holdsFilled, MsgCall.inside] at he hf hi
      rw [← he] at hx
      rw [hf, hi]
      exact hx.add
    unfold MsgBox.put at *
    cases p with
    | postMessage msg => exact hadd msg rfl
    | tryReplaceOrAdd compareTo replaceWith =>
      by_cases hsame : (st.box b).count ≠ 0 ∧ (st.box b).slot ((st.box b).tail (maxCount b)) =
          compareTo
      · simp only [if_pos hsame] at he hf hi ⊢
        simp [MsgCall.holdsEmpty, MsgCall.holdsFilled, MsgCall.inside] at he hf hi
        rw [he, hf, hi]
        exact hx.replaceTail hsame.1
      · simp only [if_neg hsame] at hadd ⊢
        exact hadd replaceWith trivial
  | @lockGet b remove hc hfree =>
    exact h.units ht hc (.of_box (by simp [MsgCall.box?])) (.of_box (by simp [MsgCall.box?]))
      rfl (by simp [MsgCall.holdsFilled]) (by simp [MsgCall.inside]) id id
  | @noLockGet b remove hc =>
    exact h.stay ht hc (.of_box (by simp [MsgCall.box?])) (.of_box (by simp [MsgCall.box?]))
      rfl rfl rfl
  | @get b remove hc =>
    refine h.move ht hc (.of_box (by simp [MsgCall.box?]))
      (.of_box (by simp [MsgCall.box?])) fun e f i e' f' i' hx he hf hi => ?_
    cases remove with
    | true =>
      simp [MsgCall.holdsEmpty, MsgCall.holdsFilled, MsgCall.inside] at he hf hi
      rw [← hf] at hx
      rw [he, hi]
      exact hx.remove
    | false =>
      simp [MsgCall.holdsEmpty, MsgCall.holdsFilled, MsgCall.inside] at he hf hi
      rw [he, hf, hi]
      exact hx
  | @unlock b filled hc =>
    refine h.units ht hc (.of_box (by simp [MsgCall.box?])) (.of_box (by simp [MsgCall.box?]))
      ?_ ?_ (by simp [MsgCall.inside]) id id
    · cases filled <;> simp [MsgCall.holdsEmpty]
    · cases filled <;> simp [MsgCall.holdsFilled]
  | @releaseEmpty b hc =>
    exact h.units ht hc (.of_box (by simp [MsgCall.box?])) (.of_box (by simp [MsgCall.box?]))
      (by simp [MsgCall.holdsEmpty]) rfl rfl (fun hle => by omega) id
  | @releaseFilled b hc =>
    exact h.units ht hc (.of_box (by simp [MsgCall.box?])) (.of_box (by simp [MsgCall.box?]))
      rfl (by simp [MsgCall.holdsFilled]) rfl id (fun hle => by omega)

omit [DecidableEq μ] in
theorem MsgInv.sound (h : MsgInv maxCount n st) : MsgboxSound maxCount n st := by
  refine ⟨fun hidle b => ?_, fun b => (h b).fifo, fun t ht b p hc => ?_,
    fun t ht b remove hc => ?_⟩
  · have hnone : ∀ p : MsgCall β μ → Bool, p .idle = false → countCalls n st.call p = 0 := by
      intro p hp
      refine Nat.eq_zero_of_not_pos fun hpos => ?_
      obtain ⟨t, ht, hcall⟩ := count_pos_iff.mp hpos
      rw [hidle t ht, hp] at hcall
      cases hcall
    have hbox := h b
    rw [hnone _ rfl, hnone _ rfl, hnone _ rfl] at hbox
    have hempty := hbox.empty
    have hfilled := hbox.filled
    have hle := hbox.emptyLe
    have hstart := hbox.start
    refine ⟨?_, by omega, by omega⟩
    rw [hbox.endIdx]
    rcases Nat.lt_or_ge (st.box b).count (maxCount b) with hlt | hge
    · -- the sum of the two indices goes round at most once
      left
      rcases Nat.lt_or_ge ((st.box b).startIdx + (st.box b).count) (maxCount b) with hin | hround
      · rw [Nat.mod_eq_of_lt hin]
        have hsum : (st.box b).startIdx + (st.box b).count + maxCount b - (st.box b).startIdx =
            (st.box b).count + maxCount b := by omega
        rw [hsum, Nat.add_mod_right, Nat.mod_eq_of_lt hlt]
      · have hmod : ((st.box b).startIdx + (st.box b).count) % maxCount b =
            (st.box b).startIdx + (st.box b).count - maxCount b := by
          rw [Nat.mod_eq_sub_mod hround, Nat.mod_eq_of_lt (by omega)]
        have hsum : (st.box b).startIdx + (st.box b).count - maxCount b + maxCount b -
            (st.box b).startIdx = (st.box b).count := by omega
        rw [hmod, hsum, Nat.mod_eq_of_lt hlt]
    · right
      have hfull : (st.box b).count = maxCount b := by omega
      rw [hfull, Nat.add_mod_right, Nat.mod_eq_of_lt hstart]
      exact ⟨rfl, rfl⟩
  · obtain ⟨k, hk⟩ := one_le_countCalls ht hc (p := MsgCall.holdsEmpty b)
      (by simp [MsgCall.holdsEmpty])
    have hbox := h b
    rw [hk] at hbox
    exact hbox.end_not_occupied
  · obtain ⟨k, hk⟩ := one_le_countCalls ht hc (p := MsgCall.holdsFilled b)
      (by simp [MsgCall.holdsFilled])
    have hbox := h b
    rw [hk] at hbox
    rw [hbox.contents_eq hbox.count_pos]
    rfl

end Calls

/-! ## Runs -/

/-- A step of one of the first `n` threads. -/
def AnyMsgStep (maxCount : β → Nat) (n : Nat) (st st' : MsgState β μ) : Prop :=
  ∃ t < n, MsgStep maxCount st t st'

/-- The boxes as `CreateMessageBox` makes them, and no call. -/
def msgStart (maxCount : β → Nat) (slot : β → Nat → μ) : MsgState β μ :=
  { box := fun b => createMessageBox (maxCount b) (slot b), call := fun _ => .idle }

omit [DecidableEq μ] in
theorem msgStart_inv {maxCount : β → Nat} (hmax : ∀ b, 1 ≤ maxCount b) (slot : β → Nat → μ)
    (n : Nat) : MsgInv maxCount n (msgStart maxCount slot) := by
  have hnone : ∀ p : MsgCall β μ → Bool, p .idle = false →
      countCalls n (msgStart maxCount slot).call p = 0 := by
    intro p hp
    refine Nat.eq_zero_of_not_pos fun hpos => ?_
    obtain ⟨t, -, hcall⟩ := count_pos_iff.mp hpos
    rw [show (msgStart maxCount slot).call t = .idle from rfl, hp] at hcall
    cases hcall
  intro b
  rw [hnone _ rfl, hnone _ rfl, hnone _ rfl]
  exact boxInv_create (hmax b) (slot b)

/--
**Message boxes are FIFO and lose nothing.** For any boxes with room for a message and any
number of threads, after any interleaving of their calls: each accepted message was removed
once or is in the box, in the order of insertion, no occupied slot is written except by a
replacement, no empty slot is delivered, and the semaphores agree with the ring when no call is
under way.
-/
theorem message_box_exactly_once (maxCount : β → Nat) (hmax : ∀ b, 1 ≤ maxCount b)
    (slot : β → Nat → μ) (n : Nat) (st : MsgState β μ)
    (hrun : Reaches (AnyMsgStep maxCount n) (msgStart maxCount slot) st) :
    MsgboxSound maxCount n st := by
  have hinv : MsgInv maxCount n st := hrun.invariant (msgStart_inv hmax slot n) fun a b ha hstep => by
    obtain ⟨t, ht, hstep⟩ := hstep
    exact ha.step ht hstep
  exact hinv.sound

/-- One thread posts a message into a box for one message. -/
theorem message_box_exactly_once_post : ∃ st : MsgState Unit Nat,
    Reaches (AnyMsgStep (fun _ => 1) 1) (msgStart (fun _ => 1) fun _ _ => 0) st ∧
      (st.box ()).accepted = [7] ∧ MsgboxSound (fun _ => 1) 1 st := by
  have hrun : Reaches (AnyMsgStep (fun _ => 1) 1)
      (msgStart (fun _ : Unit => 1) fun _ _ => (0 : Nat)) _ :=
    (((Relation.ReflTransGen.refl.tail ⟨0, by decide, .callPut rfl () (.postMessage 7)⟩).tail
      ⟨0, by decide, .acquireEmpty rfl (by decide)⟩).tail
      ⟨0, by decide, .lockPut rfl (by decide)⟩).tail ⟨0, by decide, .put rfl⟩
  exact ⟨_, hrun, rfl, message_box_exactly_once _ (fun _ => le_rfl) _ 1 _ hrun⟩

end Nolrem.Sync
