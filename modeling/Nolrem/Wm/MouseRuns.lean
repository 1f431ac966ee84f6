import Nolrem.Wm.Mouse

/-!
# Runs of mouse events

What holds of the queue, the box and the main loop in every state, as long as nothing overflows and
each step meets the condition.
-/

namespace Nolrem.Wm

open Nolrem.Lib Nolrem.Task Nolrem.Sync

/-! ## Steps in the queue -/

section Queue

variable {irq : IrqState Msg} {c e : Nat}

theorem goto_call_self (p : IrqCall Msg) : (irq.goto c p).call c = p := Function.update_self ..

theorem goto_call_of_ne (p : IrqCall Msg) (h : e ≠ c) : (irq.goto c p).call e = irq.call e :=
  Function.update_of_ne h ..

theorem advance_call_of_ne (spurious : Bool) (h : e ≠ c) :
    (advance irq c spurious).call e = irq.call e := by
  unfold advance
  cases irq.call c with
  | enqueuing msg current =>
    simp only [tryClaim]
    split_ifs <;> exact goto_call_of_ne _ h
  | dequeuing current =>
    simp only [tryTake]
    split_ifs <;> exact goto_call_of_ne _ h
  | claimed msg i => exact goto_call_of_ne _ h
  | written msg i => exact goto_call_of_ne _ h
  | taking i => exact goto_call_of_ne _ h
  | copied i msg source => exact goto_call_of_ne _ h
  | _ => rfl

/-- A call keeps its message. -/
theorem sent_advance (spurious : Bool) (e : Nat) :
    sent ((advance irq c spurious).call e) = sent (irq.call e) := by
  by_cases h : e = c
  · subst h
    unfold advance
    cases hc : irq.call e with
    | enqueuing msg current =>
      simp only [tryClaim]
      split_ifs <;> rw [goto_call_self] <;> rfl
    | dequeuing current =>
      simp only [tryTake]
      split_ifs <;> rw [goto_call_self] <;> rfl
    | claimed msg i =>
      dsimp only
      rw [goto_call_self]
      rfl
    | written msg i =>
      dsimp only
      rw [goto_call_self]
      rfl
    | taking i =>
      dsimp only
      rw [goto_call_self]
      rfl
    | copied i msg source =>
      dsimp only
      rw [goto_call_self]
      rfl
    | _ => exact congrArg sent hc
  · rw [advance_call_of_ne spurious h]

/-! ### The events in the queue -/

/-- The mouse events that were reported are in calls of `EnqueueIrqMessage` that were not refused, and
nothing else is a mouse event there. -/
structure QueueInv (irq : IrqState Msg) (reported : List (Nat × Msg)) : Prop where
  inv : IrqInv irq
  noBufs : ∀ c, isNoBufs (irq.call c) = false
  carries : ∀ p ∈ reported, sent (irq.call p.1) = some p.2
  mouse : ∀ c msg, sent (irq.call c) = some msg → msg.isMouse = true → (c, msg) ∈ reported
  isMouse : ∀ p ∈ reported, p.2.isMouse = true
  nodup : reported.Nodup

namespace QueueInv

variable {reported : List (Nat × Msg)} {p : IrqCall Msg} {msg : Msg}

/-- A call that has not begun is none of an event. -/
theorem ne_of_idle (h : QueueInv irq reported) (hc : irq.call c = .idle) {q : Nat × Msg}
    (hq : q ∈ reported) : q.1 ≠ c := by
  rintro rfl
  have hsent := h.carries q hq
  rw [hc] at hsent
  cases hsent

/-- A call begins that brings no mouse event. -/
theorem begin_call (h : QueueInv irq reported) (hstep : IrqStep irq (irq.goto c p))
    (hc : irq.call c = .idle) (hbufs : isNoBufs p = false)
    (hp : ∀ msg, sent p = some msg → msg.isMouse = false) : QueueInv (irq.goto c p) reported := by
  refine ⟨irqStep_inv h.inv hstep, fun e => ?_, fun q hq => ?_, fun e msg he hmouse => ?_, h.isMouse,
    h.nodup⟩
  · by_cases he : e = c
    · rw [he, goto_call_self]
      exact hbufs
    · rw [goto_call_of_ne _ he]
      exact h.noBufs e
  · rw [goto_call_of_ne _ (h.ne_of_idle hc hq)]
    exact h.carries q hq
  · by_cases hec : e = c
    · rw [hec, goto_call_self] at he
      rw [hp msg he] at hmouse
      cases hmouse
    · rw [goto_call_of_ne _ hec] at he
      exact h.mouse e msg he hmouse

/-- An event is reported. -/
theorem report (h : QueueInv irq reported) (hc : irq.call c = .idle)
    (hmsg : msg.isMouse = true) :
    QueueInv (irq.goto c (.enqueuing msg irq.claimed)) (reported ++ [(c, msg)]) := by
  have hnew : (c, msg) ∉ reported := fun hmem => h.ne_of_idle hc hmem rfl
  refine ⟨irqStep_inv h.inv (.enqueue irq c msg hc), fun e => ?_, fun q hq => ?_,
    fun e m he hmouse => ?_, fun q hq => ?_, ?_⟩
  · by_cases he : e = c
    · rw [he, goto_call_self]
      rfl
    · rw [goto_call_of_ne _ he]
      exact h.noBufs e
  · rcases List.mem_append.mp hq with hq | hq
    · rw [goto_call_of_ne _ (h.ne_of_idle hc hq)]
      exact h.carries q hq
    · rw [List.mem_singleton.mp hq, goto_call_self]
      rfl
  · by_cases hec : e = c
    · rw [hec, goto_call_self] at he
      cases he
      rw [hec]
      exact List.mem_append_right _ (List.mem_singleton_self _)
    · rw [goto_call_of_ne _ hec] at he
      exact List.mem_append_left _ (h.mouse e m he hmouse)
  · rcases List.mem_append.mp hq with hq | hq
    · exact h.isMouse q hq
    · rw [List.mem_singleton.mp hq]
      exact hmsg
  · rw [List.nodup_append]
    refine ⟨h.nodup, List.nodup_singleton _, fun q hq r hr => ?_⟩
    rw [List.mem_singleton.mp hr]
    rintro rfl
    exact hnew hq

theorem proceed (h : QueueInv irq reported) (c : Nat) (spurious : Bool)
    (hno : isNoBufs ((advance irq c spurious).call c) = false) :
    QueueInv (advance irq c spurious) reported := by
  refine ⟨advance_inv h.inv c spurious, fun e => ?_, fun q hq => ?_, fun e msg he hmouse => ?_,
    h.isMouse, h.nodup⟩
  · by_cases he : e = c
    · rw [he]
      exact hno
    · rw [advance_call_of_ne spurious he]
      exact h.noBufs e
  · rw [sent_advance]
    exact h.carries q hq
  · rw [sent_advance] at he
    exact h.mouse e msg he hmouse

end QueueInv

end Queue

/-! ## Steps in the box -/

section Box

/-- The message that a call on the box has yet to put there -/
def pendingPut : MsgCall Unit Msg → Option (Put Msg)
  | .waitEmpty _ p | .lockPut _ p | .put _ p => some p
  | _ => none

/-- The call has changed the box, or there is no call. -/
def isReturning : MsgCall Unit Msg → Bool
  | .unlock _ _ | .release _ _ | .idle => true
  | _ => false

variable {st st' : MsgState Unit Msg} {p : Put Msg} {n : Nat}

theorem move_call_self (t : Nat) (call : MsgCall Unit Msg) (mbox : MsgBox Msg) :
    (st.move t call () mbox).call t = call := Function.update_self ..

theorem move_call_of_ne {t u : Nat} (call : MsgCall Unit Msg) (mbox : MsgBox Msg) (h : u ≠ t) :
    (st.move t call () mbox).call u = st.call u := Function.update_of_ne h ..

theorem move_box (t : Nat) (call : MsgCall Unit Msg) (mbox : MsgBox Msg) :
    (st.move t call () mbox).box () = mbox := rfl

theorem step_call_of_ne {t u : Nat} (h : MsgStep (fun _ => n) st t st') (hu : u ≠ t) :
    st'.call u = st.call u := by
  cases h <;> exact move_call_of_ne _ _ hu

/-- How a call that puts a message goes on: it gives up, or the messages in the box stay, or it
changes them as `Sync.MsgBox` says. -/
theorem post_cases (h : MsgStep (fun _ => n) st 0 st') (hcall : st.call 0 ≠ .idle)
    (hlock : LockTaken (st.call 0) (st'.call 0))
    (hphase : pendingPut (st.call 0) = some p ∨
      pendingPut (st.call 0) = none ∧ isReturning (st.call 0) = true) :
    isWaitEmpty (st.call 0) = true ∧ isIdle (st'.call 0) = true ∨
      (isPut (st.call 0) = false ∧ (st'.box ()).accepted = (st.box ()).accepted ∧
        (st'.box ()).delivered = (st.box ()).delivered ∧
        (pendingPut (st.call 0) = some p ∧ pendingPut (st'.call 0) = some p ∨
          pendingPut (st.call 0) = none ∧ pendingPut (st'.call 0) = none ∧
            isReturning (st'.call 0) = true)) ∨
      st.call 0 = .put () p ∧ pendingPut (st'.call 0) = none ∧ isReturning (st'.call 0) = true ∧
        st'.box () = ((st.box ()).put n p).1 := by
  cases h with
  | callPut hc b q => exact absurd hc hcall
  | callGet hc bs remove b hb => exact absurd hc hcall
  | @acquireEmpty b q hc hroom =>
    rw [hc] at hphase ⊢
    rw [move_call_self, move_box]
    rcases hphase with hphase | ⟨-, hphase⟩
    · exact .inr (.inl ⟨rfl, rfl, rfl, .inl ⟨hphase, hphase⟩⟩)
    · cases hphase
  | @noEmpty b q hc =>
    rw [hc, move_call_self]
    exact .inl ⟨rfl, rfl⟩
  | acquireFilled hc hb hroom =>
    rw [hc] at hphase
    rcases hphase with hphase | ⟨-, hphase⟩ <;> cases hphase
  | noFilled hc b =>
    rw [hc] at hphase
    rcases hphase with hphase | ⟨-, hphase⟩ <;> cases hphase
  | @lockPut b q hc hfree =>
    rw [hc] at hphase ⊢
    rw [move_call_self, move_box]
    rcases hphase with hphase | ⟨-, hphase⟩
    · exact .inr (.inl ⟨rfl, rfl, rfl, .inl ⟨hphase, hphase⟩⟩)
    · cases hphase
  | @noLockPut b q hc =>
    rw [hc, move_call_self] at hlock
    cases hlock
  | @put b q hc =>
    rw [hc] at hphase ⊢
    rw [move_call_self, move_box]
    rcases hphase with hphase | ⟨-, hphase⟩
    · cases hphase
      exact .inr (.inr ⟨rfl, rfl, rfl, rfl⟩)
    · cases hphase
  | lockGet hc hfree =>
    rw [hc] at hphase
    rcases hphase with hphase | ⟨-, hphase⟩ <;> cases hphase
  | noLockGet hc =>
    rw [hc] at hphase
    rcases hphase with hphase | ⟨-, hphase⟩ <;> cases hphase
  | get hc =>
    rw [hc] at hphase
    rcases hphase with hphase | ⟨-, hphase⟩ <;> cases hphase
  | unlock hc =>
    rw [hc, move_call_self, move_box]
    exact .inr (.inl ⟨rfl, rfl, rfl, .inr ⟨rfl, rfl, rfl⟩⟩)
  | releaseEmpty hc =>
    rw [hc, move_call_self, move_box]
    exact .inr (.inl ⟨rfl, rfl, rfl, .inr ⟨rfl, rfl, rfl⟩⟩)
  | releaseFilled hc =>
    rw [hc, move_call_self, move_box]
    exact .inr (.inl ⟨rfl, rfl, rfl, .inr ⟨rfl, rfl, rfl⟩⟩)

/-- A call that does not put messages accepts none. -/
theorem get_cases {t : Nat} (h : MsgStep (fun _ => n) st t st') (hcall : st.call t ≠ .idle)
    (hput : pendingPut (st.call t) = none) :
    pendingPut (st'.call t) = none ∧ (st'.box ()).accepted = (st.box ()).accepted ∧
      (st.box ()).delivered <+: (st'.box ()).delivered := by
  cases h with
  | callPut hc b q => exact absurd hc hcall
  | callGet hc bs remove b hb => exact absurd hc hcall
  | acquireEmpty hc hroom =>
    rw [hc] at hput
    cases hput
  | noEmpty hc =>
    rw [hc] at hput
    cases hput
  | lockPut hc hfree =>
    rw [hc] at hput
    cases hput
  | noLockPut hc =>
    rw [hc] at hput
    cases hput
  | put hc =>
    rw [hc] at hput
    cases hput
  | @get b remove hc =>
    rw [move_call_self, move_box]
    refine ⟨rfl, ?_, ?_⟩
    · unfold MsgBox.get
      split <;> rfl
    · unfold MsgBox.get
      split
      · exact List.prefix_append ..
      · exact List.prefix_rfl
  | acquireFilled hc hb hroom =>
    rw [move_call_self, move_box]
    exact ⟨rfl, rfl, List.prefix_rfl⟩
  | _ =>
    rw [move_call_self, move_box]
    exact ⟨rfl, rfl, List.prefix_rfl⟩

/-- The mouse events in the box, with those that were there, after a mouse event is put there -/
theorem coalesced_put {mbox : MsgBox Msg} {e f i : Nat} {events : List Msg} {prev msg : Msg}
    (hbox : BoxInv n mbox e f i) (hmsg : msg.isMouse = true) (hprev : prev.isMouse = true)
    (h : Coalesced Msg.iArg 0 events (mbox.accepted.filter Msg.isMouse))
    (htail : mbox.count ≠ 0 → mbox.slot (mbox.tail n) = prev →
      prev.iArg = keyAfter Msg.iArg 0 ((mbox.accepted.filter Msg.isMouse).dropLast)) :
    Coalesced Msg.iArg 0 (events ++ [msg])
      ((mbox.put n (.tryReplaceOrAdd prev msg)).1.accepted.filter Msg.isMouse) := by
  have hfilter : ∀ (l : List Msg) (m : Msg), m.isMouse = true →
      (l ++ [m]).filter Msg.isMouse = l.filter Msg.isMouse ++ [m] := by
    intro l m hm
    rw [List.filter_append, List.filter_singleton, hm]
    rfl
  unfold MsgBox.put
  by_cases hreplace : mbox.count ≠ 0 ∧ mbox.slot (mbox.tail n) = prev
  · -- the event takes the place of the newest message, which is the previous event
    obtain ⟨hcount, heq⟩ := hreplace
    have hlast := htail hcount heq
    have hsplit := hbox.accepted_tail hcount
    rw [heq] at hsplit
    dsimp only
    rw [if_pos ⟨hcount, heq⟩]
    change Coalesced Msg.iArg 0 _ ((mbox.accepted.dropLast ++ [msg]).filter Msg.isMouse)
    rw [hsplit, hfilter _ _ hprev] at h hlast
    rw [List.dropLast_concat] at hlast
    rw [hsplit, List.dropLast_concat, hfilter _ _ hmsg]
    exact h.replace hlast msg
  · dsimp only
    rw [if_neg hreplace]
    change Coalesced Msg.iArg 0 _ ((mbox.accepted ++ [msg]).filter Msg.isMouse)
    rw [hfilter _ _ hmsg]
    exact h.push msg

theorem put_delivered (mbox : MsgBox Msg) (p : Put Msg) :
    (mbox.put n p).1.delivered = mbox.delivered := by
  cases p with
  | postMessage msg => rfl
  | tryReplaceOrAdd compareTo replaceWith =>
    unfold MsgBox.put
    dsimp only
    split <;> rfl

end Box

/-! ## The invariant -/

/-- Where the call on the box of `ProcessIrqPostMessage` is -/
def Phase (st : MouseState) : Prop :=
  match st.process with
  | .posting msg _ =>
    pendingPut (st.box.call 0) = some (st.put msg) ∨
      pendingPut (st.box.call 0) = none ∧ isReturning (st.box.call 0) = true
  | _ => st.box.call 0 = .idle

structure MouseInv (st : MouseState) : Prop where
  queue : QueueInv st.irq st.reported
  /-- The events are put into the box in the order in which they were reported. -/
  order : mouseEvents st.posted <+: st.reported
  /-- A message that was taken out of the queue is put into the box, or is yet to be put there. -/
  got : ∀ d msg e, st.irq.call d = .got msg e →
    (e, msg) ∈ st.posted ∨ st.process = .dequeuing d ∨
      st.process = .posting msg e ∧ pendingPut (st.box.call 0) ≠ none
  box : MsgInv (fun _ => systemMsgboxSize) 2 st.box
  prev : st.prevMouseMsg.isMouse = true
  phase : Phase st
  reader : pendingPut (st.box.call 1) = none
  kept : Coalesced Msg.iArg 0 ((mouseEvents st.posted).map Prod.snd)
    ((st.box.box ()).accepted.filter Msg.isMouse)
  handled : st.main.handled <+: (st.box.box ()).delivered
  shown : ∀ msg, st.seen.getLast? = some msg →
    st.main.mouseX = msg.x ∧ st.main.mouseY = msg.y ∧ st.main.mouseButtons = msg.iArg

/-- The event that comes next makes a prefix longer. -/
theorem prefix_concat {α : Type} {l L : List α} {a : α} (h : l <+: L) (ha : L[l.length]? = some a) :
    l ++ [a] <+: L := by
  rcases h with ⟨rest, rfl⟩
  rw [List.getElem?_append_right le_rfl, Nat.sub_self] at ha
  cases rest with
  | nil => cases ha
  | cons b rest =>
    cases ha
    exact ⟨rest, by rw [List.append_assoc]; rfl⟩

section Steps

variable {st st' : MouseState}

/-- A step in which the calls in the queue that have taken a message are those of before -/
theorem MouseInv.of_queue (h : MouseInv st) {irq : IrqState Msg} {reported : List (Nat × Msg)}
    (hqueue : QueueInv irq reported) (hreported : st.reported <+: reported)
    (hgot : ∀ d msg e, irq.call d = .got msg e →
      st.irq.call d = .got msg e ∨ st.process = .dequeuing d) :
    MouseInv { st with irq, reported } := by
  refine { h with queue := hqueue, order := h.order.trans hreported, got := fun d msg e hd => ?_ }
  rcases hgot d msg e hd with hold | hnow
  · exact h.got d msg e hold
  · exact .inr (.inl hnow)

theorem MouseInv.input (h : MouseInv st) (clickBits : UInt8) (deltaX deltaY : Int) {c : Nat}
    (hc : st.irq.call c = .idle) :
    MouseInv (st.wmHandleMouseInput clickBits deltaX deltaY c) := by
  unfold MouseState.wmHandleMouseInput
  dsimp only
  split
  · refine { h.of_queue (h.queue.report hc rfl) (List.prefix_append ..) fun d m e hd => ?_ with }
    by_cases hdc : d = c
    · rw [hdc, goto_call_self] at hd
      cases hd
    · rw [goto_call_of_ne _ hdc] at hd
      exact .inl hd
  · exact { h with }

/-- A call on the queue begins that brings no mouse event. -/
theorem MouseInv.begin_call (h : MouseInv st) {c : Nat} {p : IrqCall Msg}
    (hstep : IrqStep st.irq (st.irq.goto c p)) (hc : st.irq.call c = .idle)
    (hbufs : isNoBufs p = false) (hp : ∀ msg, sent p = some msg → msg.isMouse = false)
    (hgot : ∀ msg e, p ≠ .got msg e) : MouseInv { st with irq := st.irq.goto c p } := by
  refine h.of_queue (h.queue.begin_call hstep hc hbufs hp) List.prefix_rfl fun d m e hd => ?_
  by_cases hdc : d = c
  · rw [hdc, goto_call_self] at hd
    exact absurd hd (hgot m e)
  · rw [goto_call_of_ne _ hdc] at hd
    exact .inl hd

/-- A step in a call on the queue, either of a producer or of `ProcessIrqPostMessage` -/
theorem MouseInv.proceed (h : MouseInv st) {c : Nat} (spurious : Bool)
    (hno : isNoBufs ((advance st.irq c spurious).call c) = false)
    (hc : sent (st.irq.call c) ≠ none ∨ st.process = .dequeuing c) :
    MouseInv { st with irq := advance st.irq c spurious } := by
  refine h.of_queue (h.queue.proceed c spurious hno) List.prefix_rfl fun d m e hd => ?_
  by_cases hdc : d = c
  · rcases hc with hc | hc
    · rw [← sent_advance spurious, ← hdc, hd] at hc
      exact absurd rfl hc
    · exact .inr (by rw [hdc]; exact hc)
  · rw [advance_call_of_ne spurious hdc] at hd
    exact .inl hd

/-- A step that leaves the messages in the box alone -/
theorem MouseInv.post_same (h : MouseInv st) {msg : Msg} {source : Nat} {box : MsgState Unit Msg}
    (hp : st.process = .posting msg source) (hbox : MsgInv (fun _ => systemMsgboxSize) 2 box)
    (hreader : pendingPut (box.call 1) = none)
    (hacc : (box.box ()).accepted = (st.box.box ()).accepted)
    (hdel : (box.box ()).delivered = (st.box.box ()).delivered)
    (hnext : pendingPut (st.box.call 0) = some (st.put msg) ∧
        pendingPut (box.call 0) = some (st.put msg) ∨
      pendingPut (st.box.call 0) = none ∧ pendingPut (box.call 0) = none ∧
        isReturning (box.call 0) = true) :
    MouseInv { st with box } := by
  refine { h with box := hbox, reader := hreader, phase := ?_, kept := ?_, handled := ?_, got := ?_ }
  · intro d m e hd
    rcases h.got d m e hd with hold | hnow | ⟨hpost, hpend⟩
    · exact .inl hold
    · exact .inr (.inl hnow)
    · refine .inr (.inr ⟨hpost, ?_⟩)
      rcases hnext with ⟨-, hpend'⟩ | ⟨hnone, -⟩
      · dsimp only
        rw [hpend']
        exact nofun
      · exact absurd hnone hpend
  · unfold Phase
    dsimp only
    rw [hp]
    rcases hnext with ⟨-, hpend⟩ | ⟨-, hret⟩
    · exact .inl hpend
    · exact .inr hret
  · dsimp only
    rw [hacc]
    exact h.kept
  · dsimp only
    rw [hdel]
    exact h.handled

/-- The step that puts the message into the box -/
theorem MouseInv.post_put (h : MouseInv st) {msg : Msg} {source : Nat} {box : MsgState Unit Msg}
    (hp : st.process = .posting msg source) (hbox : MsgInv (fun _ => systemMsgboxSize) 2 box)
    (hreader : pendingPut (box.call 1) = none)
    (hcall : st.box.call 0 = .put () (st.put msg)) (hpend : pendingPut (box.call 0) = none)
    (hret : isReturning (box.call 0) = true)
    (hput : box.box () = ((st.box.box ()).put systemMsgboxSize (st.put msg)).1)
    (horder : st.InOrder) (htail : st.TailIsNoChange) :
    MouseInv { st with box, posted := st.posted ++ [(source, msg)] } := by
  unfold MouseState.InOrder at horder
  unfold MouseState.TailIsNoChange at htail
  rw [hp, hcall] at horder htail
  simp only at horder htail
  have hevents : mouseEvents (st.posted ++ [(source, msg)]) =
      mouseEvents st.posted ++ if msg.isMouse then [(source, msg)] else [] := by
    unfold mouseEvents
    rw [List.filter_append, List.filter_singleton, cond_eq_ite]
  refine { h with
    box := hbox, reader := hreader, phase := ?_, kept := ?_, handled := ?_, got := ?_, order := ?_ }
  · dsimp only
    rw [hevents]
    split
    · next hmouse => exact prefix_concat h.order (horder hmouse)
    · rw [List.append_nil]
      exact h.order
  · intro d m e hd
    rcases h.got d m e hd with hold | hnow | ⟨hpost, -⟩
    · exact .inl (List.mem_append_left _ hold)
    · exact .inr (.inl hnow)
    · rw [hp] at hpost
      cases hpost
      exact .inl (List.mem_append_right _ (List.mem_singleton_self _))
  · unfold Phase
    dsimp only
    rw [hp]
    exact .inr ⟨hpend, hret⟩
  · dsimp only
    rw [hevents, hput]
    unfold MouseState.put
    split
    · next hmouse =>
      rw [List.map_append]
      exact coalesced_put (h.box ()) hmouse h.prev h.kept (htail hmouse)
    · next hother =>
      rw [List.append_nil]
      change Coalesced Msg.iArg 0 _ (((st.box.box ()).accepted ++ [msg]).filter Msg.isMouse)
      rw [List.filter_append, List.filter_singleton, Bool.eq_false_iff.mpr hother, cond_false,
        List.append_nil]
      exact h.kept
  · dsimp only
    rw [hput, put_delivered]
    exact h.handled

/-- A step in a call that puts a message into the box -/
theorem MouseInv.post (h : MouseInv st) {msg : Msg} {source : Nat} {box : MsgState Unit Msg}
    (hp : st.process = .posting msg source) (hcall : st.box.call 0 ≠ .idle)
    (hstep : MsgStep (fun _ => systemMsgboxSize) st.box 0 box)
    (hlock : LockTaken (st.box.call 0) (box.call 0)) (horder : st.InOrder)
    (htail : st.TailIsNoChange)
    (hno : (isWaitEmpty (st.box.call 0) && isIdle (box.call 0)) = false) :
    MouseInv { st with
      box
      posted := if isPut (st.box.call 0) then st.posted ++ [(source, msg)] else st.posted } := by
  have hphase := h.phase
  unfold Phase at hphase
  rw [hp] at hphase
  have hbox := h.box.step (by decide) hstep
  have hreader : pendingPut (box.call 1) = none := by
    rw [step_call_of_ne hstep (by decide)]
    exact h.reader
  rcases post_cases hstep hcall hlock hphase with ⟨hwait, hidle⟩ |
    ⟨hnot, hacc, hdel, hnext⟩ | ⟨hnow, hpend, hret, hput⟩
  · rw [hwait, hidle] at hno
    cases hno
  · rw [hnot]
    exact h.post_same hp hbox hreader hacc hdel hnext
  · rw [hnow]
    exact h.post_put hp hbox hreader hnow hpend hret hput horder htail

/-- A message that was taken out before is in the box, or was there. -/
theorem MouseInv.posted_of_got (h : MouseInv st) {d e : Nat} {msg : Msg}
    (hd : st.irq.call d = .got msg e) (hdequeuing : st.process ≠ .dequeuing d)
    (hposting : st.process ≠ .posting msg e) : (e, msg) ∈ st.posted := by
  rcases h.got d msg e hd with hold | hnow | ⟨hpost, -⟩
  · exact hold
  · exact absurd hnow hdequeuing
  · exact absurd hpost hposting

/-- `ProcessIrqPostMessage` goes on, with no call on the box. -/
theorem MouseInv.set_process (h : MouseInv st) {process : Process} (hcall : st.box.call 0 = .idle)
    (hp : ∀ msg source, process ≠ .posting msg source)
    (hgot : ∀ d msg e, st.irq.call d = .got msg e → (e, msg) ∈ st.posted ∨ process = .dequeuing d) :
    MouseInv { st with process } := by
  refine { h with phase := ?_, got := fun d m e hd => ?_ }
  · rcases hgot d m e hd with hold | hnow
    · exact .inl hold
    · exact .inr (.inl hnow)
  · unfold Phase
    cases process with
    | posting msg source => exact absurd rfl (hp msg source)
    | _ => exact hcall

/-- A message is taken out of the queue and on its way to the box. -/
theorem MouseInv.take_out (h : MouseInv st) {d source : Nat} {msg : Msg}
    (hp : st.process = .dequeuing d) (hd : st.irq.call d = .got msg source) :
    MouseInv { st with
      process := .posting msg source
      box := st.box.move 0 (.waitEmpty () (st.put msg)) () (st.box.box ()) } := by
  have hphase := h.phase
  unfold Phase at hphase
  rw [hp] at hphase
  have hpending : pendingPut ((st.box.move 0 (.waitEmpty () (st.put msg)) () (st.box.box ())).call 0) =
      some (st.put msg) := by
    rw [move_call_self]
    rfl
  refine { h with
    box := h.box.step (by decide) (.callPut hphase () (st.put msg)), reader := ?_,
    phase := .inl hpending, kept := h.kept, handled := h.handled, got := fun d' m e hd' => ?_ }
  · rcases h.got d' m e hd' with hold | hnow | ⟨hpost, -⟩
    · exact .inl hold
    · rw [hp] at hnow
      cases hnow
      rw [hd] at hd'
      cases hd'
      refine .inr (.inr ⟨rfl, ?_⟩)
      dsimp only
      rw [hpending]
      exact nofun
    · rw [hp] at hpost
      cases hpost
  · dsimp only
    rw [move_call_of_ne _ _ (by decide)]
    exact h.reader

/-- `HandleMouse` shows the last event that it has seen. -/
theorem MouseInv.handle (h : MouseInv st) {msg : Msg}
    (hmsg : (st.box.box ()).delivered = st.main.handled ++ [msg]) :
    MouseInv { st with main := st.main.processMessage msg } := by
  have hhandled : (st.main.processMessage msg).handled = st.main.handled ++ [msg] := by
    unfold MainLoop.processMessage
    dsimp only
    split <;> rfl
  refine { h with handled := ?_, shown := fun m hm => ?_ }
  · dsimp only
    rw [hhandled, hmsg]
  · unfold MouseState.seen at hm
    dsimp only at hm ⊢
    rw [hhandled, List.filter_append, List.filter_singleton] at hm
    unfold MainLoop.processMessage
    cases hmouse : msg.isMouse with
    | true =>
      rw [hmouse, cond_true, List.getLast?_concat] at hm
      cases hm
      exact ⟨rfl, rfl, rfl⟩
    | false =>
      rw [hmouse, cond_false, List.append_nil] at hm
      exact h.shown m hm

theorem MouseInv.step (h : MouseInv st) (hstep : MeetingStep st st')
    (hno : st'.overflowed = false) : MouseInv st' := by
  obtain ⟨hstep, horder, htail⟩ := hstep
  have hphase := h.phase
  unfold Phase at hphase
  cases hstep with
  | start => exact { h with }
  | input clickBits deltaX deltaY c hc => exact h.input clickBits deltaX deltaY hc
  | lowMemory c hc =>
    refine h.begin_call (.enqueue _ c _ hc) hc rfl (fun msg hmsg => ?_) nofun
    cases hmsg
    rfl
  | enqueue c spurious hc =>
    exact { h.proceed spurious (Bool.or_eq_false_iff.mp hno).2 (.inl hc) with }
  | defer c msg hc => exact { h with }
  | arrive hdefer => exact { h with }
  | enter hp hsome =>
    rw [hp] at hphase
    have hset : MouseInv { st with process := .loop } :=
      h.set_process hphase nofun fun d m e hd =>
        .inl (h.posted_of_got hd (by rw [hp]; exact nofun) (by rw [hp]; exact nofun))
    exact { hset with }
  | dequeue d hp hd =>
    rw [hp] at hphase
    have hbegun := h.begin_call (.dequeue _ d hd) hd rfl nofun nofun
    refine hbegun.set_process hphase nofun fun d' m e hd' => .inl (hbegun.posted_of_got hd' ?_ ?_)
    · dsimp only
      rw [hp]
      exact nofun
    · dsimp only
      rw [hp]
      exact nofun
  | take d spurious hp hd =>
    refine h.proceed spurious ?_ (.inr hp)
    have hnone : sent ((advance st.irq d spurious).call d) = none := by rw [sent_advance, hd]
    cases hcall : (advance st.irq d spurious).call d with
    | noBufs msg =>
      rw [hcall] at hnone
      cases hnone
    | _ => rfl
  | got d msg source hp hd => exact h.take_out hp hd
  | leave d hp hd =>
    rw [hp] at hphase
    refine h.set_process hphase nofun fun d' m e hd' => .inl (h.posted_of_got hd' ?_ ?_)
    · rw [hp]
      rintro ⟨⟩
      rw [hd] at hd'
      cases hd'
    · rw [hp]
      exact nofun
  | post msg source box hp hcall hbox hlock =>
    exact { h.post hp hcall hbox hlock horder htail (Bool.or_eq_false_iff.mp hno).2 with }
  | next msg source hp hcall =>
    have hprev : (if msg.isMouse then msg else st.prevMouseMsg).isMouse = true := by
      split
      · assumption
      · exact h.prev
    have hset : MouseInv { st with process := .loop } := by
      refine h.set_process hcall nofun fun d m e hd => ?_
      rcases h.got d m e hd with hold | hnow | ⟨-, hpend⟩
      · exact .inl hold
      · rw [hp] at hnow
        cases hnow
      · rw [hcall] at hpend
        exact absurd rfl hpend
    exact { hset with prev := hprev, phase := hcall }
  | getMessage hcall hhandled =>
    have hsame : (st.box.move 1 (.waitFilled [()] true) () (st.box.box ())).call 0 =
        st.box.call 0 := move_call_of_ne _ _ (by decide)
    refine { h with
      box := h.box.step (by decide) (.callGet hcall [()] true () (List.mem_singleton_self _))
      reader := ?_, phase := ?_, kept := h.kept, handled := h.handled, got := ?_ }
    · dsimp only
      rw [hsame]
      exact h.got
    · unfold Phase
      dsimp only
      rw [hsame]
      exact h.phase
    · dsimp only
      rw [move_call_self]
      rfl
  | get box hcall hbox hlock hmsg =>
    have hsame : box.call 0 = st.box.call 0 := step_call_of_ne hbox (by decide)
    obtain ⟨hreader, hacc, hdel⟩ := get_cases hbox hcall h.reader
    refine { h with
      box := h.box.step (by decide) hbox, reader := hreader, phase := ?_, kept := ?_
      handled := h.handled.trans hdel, got := ?_ }
    · dsimp only
      rw [hsame]
      exact h.got
    · unfold Phase
      dsimp only
      rw [hsame]
      exact h.phase
    · dsimp only
      rw [hacc]
      exact h.kept
  | handle msg hcall hmsg => exact h.handle hmsg

end Steps

/-! ## What is seen -/

section Seen

variable {st : MouseState}

end Seen

end Nolrem.Wm
