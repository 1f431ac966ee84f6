import Nolrem.Lib.Changes
import Nolrem.Sync.MsgBox
import Nolrem.Task.IrqQueue

/-!
# Mouse events

The way of a mouse event from `WmHandleMouseInput` of `kernel/_WINMGR/mouse.c` through the queue of
`PostMessageIrq` and the system message box to `HandleMouse` of `kernel/_WINMGR/mainloop.c`. The steps
in the queue are the ones of `Task.IrqQueue`. Those in the box are the ones of `Sync.MsgBox`, where
thread 0 is the one in `ProcessIrqPostMessage` and thread 1 the one in `WmMainloop`.
-/

namespace Nolrem.Wm

open Nolrem.Lib Nolrem.Task Nolrem.Sync

/-! ## Messages -/

/-- `struct msg` as it is used for system messages -/
structure Msg where
  type : Nat
  iArg : Int
  /-- `rect_arg.x` -/
  x : Int
  /-- `rect_arg.y` -/
  y : Int
deriving DecidableEq, Repr

/-- `SYSMSG_MOUSEEVENT` -/
def sysmsgMouseEvent : Nat := 0

/-- `SYSMSG_LOWMEMORY` -/
def sysmsgLowMemory : Nat := 1

def Msg.isMouse (msg : Msg) : Bool := msg.type = sysmsgMouseEvent

/-- The message of `AllocPhys` when memory is low -/
def lowMemoryMsg : Msg := ⟨sysmsgLowMemory, 0, 0, 0⟩

/-- `SYSTEM_MSGBOX_SIZE` -/
def systemMsgboxSize : Nat := 8

/-- `BoundMouse`, for one coordinate. The bounds start at 0. -/
def boundMouse (size p : Int) : Int :=
  let p := if p < 0 then 0 else p
  if size ≤ p then size - 1 else p

/-! ## The state -/

/-- The static variables of `mouse.c` -/
structure Pointer where
  mouseX : Int
  mouseY : Int
deriving DecidableEq, Repr

/-- Where the caller of `ProcessIrqPostMessage` that holds the scheduler is -/
inductive Process where
  | outside
  /-- Before `DequeueIrqMessage` -/
  | loop
  /-- In the call `d` of `DequeueIrqMessage` -/
  | dequeuing (d : Nat)
  /-- In `KeTryReplaceOrAdd` or `KePostMessage`, with the message of the call `source` -/
  | posting (msg : Msg) (source : Nat)
deriving DecidableEq, Repr

/-- The variables of `mainloop.c` that `HandleMouse` sets from its arguments, and the messages that
`ProcessMessage` was given -/
structure MainLoop where
  mouseX : Int
  mouseY : Int
  prevMouseButtons : Int
  mouseButtons : Int
  handled : List Msg
deriving DecidableEq, Repr

/--
`reported` are the mouse events that `WmHandleMouseInput` made, and `posted` the messages that were
put into the box, each with the call of `EnqueueIrqMessage` that it comes from. These two and
`overflowed` are for the statements only.
-/
structure MouseState where
  pointer : Pointer
  /-- `wm_mainloop_started` -/
  started : Bool
  irq : IrqState Msg
  hasDeferMsg : Bool
  /-- Callers of `ProcessIrqPostMessage` that saw `has_defer_msg` and wait for the scheduler -/
  entering : Nat
  process : Process
  prevMouseMsg : Msg
  box : MsgState Unit Msg
  main : MainLoop
  reported : List (Nat × Msg)
  posted : List (Nat × Msg)
  overflowed : Bool

/-! ## The code -/

/-- `WmHandleMouseInput`, up to the load of the bitmap in the call `c` of `EnqueueIrqMessage` -/
def MouseState.wmHandleMouseInput (st : MouseState) (clickBits : UInt8) (deltaX deltaY : Int)
    (c : Nat) : MouseState :=
  let newMx := st.pointer.mouseX + deltaX
  let newMy := st.pointer.mouseY + deltaY
  let moved := newMx ≠ st.pointer.mouseX ∨ newMy ≠ st.pointer.mouseY
  let pointer := if moved then ⟨boundMouse 640 newMx, boundMouse 480 newMy⟩ else st.pointer
  if st.started then
    let msg : Msg := ⟨sysmsgMouseEvent, clickBits.toNat, pointer.mouseX, pointer.mouseY⟩
    { st with
      pointer
      irq := st.irq.goto c (.enqueuing msg st.irq.claimed)
      reported := st.reported ++ [(c, msg)] }
  else { st with pointer }

/-- What `ProcessIrqPostMessage` does with a message. `has_prev_mouse_msg` is always set. -/
def MouseState.put (st : MouseState) (msg : Msg) : Put Msg :=
  if msg.isMouse then .tryReplaceOrAdd st.prevMouseMsg msg else .postMessage msg

/-- `HandleMouse` -/
def MainLoop.handleMouse (main : MainLoop) (mx my clickBits : Int) : MainLoop :=
  { main with
    mouseX := mx
    mouseY := my
    prevMouseButtons := main.mouseButtons
    mouseButtons := clickBits }

/-- `ProcessMessage` -/
def MainLoop.processMessage (main : MainLoop) (msg : Msg) : MainLoop :=
  let main := { main with handled := main.handled ++ [msg] }
  if msg.isMouse then main.handleMouse msg.x msg.y msg.iArg else main

/-- The message that a call of `EnqueueIrqMessage` was given -/
def sent : IrqCall Msg → Option Msg
  | .enqueuing msg _ | .claimed msg _ | .written msg _ | .posted msg | .noBufs msg => some msg
  | _ => none

def isNoBufs : IrqCall Msg → Bool
  | .noBufs _ => true
  | _ => false

def isPut : MsgCall Unit Msg → Bool
  | .put _ _ => true
  | _ => false

def isWaitEmpty : MsgCall Unit Msg → Bool
  | .waitEmpty _ _ => true
  | _ => false

def isIdle : MsgCall Unit Msg → Bool
  | .idle => true
  | _ => false

/-- A mutex is waited for with `TIMEOUT_INFINITE`: a call does not go on without it. -/
def LockTaken (call call' : MsgCall Unit Msg) : Prop :=
  match call with
  | .lockPut b p => call' = .put b p
  | .lockGet b remove => call' = .get b remove
  | _ => True

/-- `KeGetMessage` waits for a message with `TIMEOUT_INFINITE`. -/
def MessageTaken (call call' : MsgCall Unit Msg) : Prop :=
  match call with
  | .waitFilled _ _ => call' ≠ .idle
  | _ => True

inductive MouseStep : MouseState → MouseState → Prop where
  /-- `WmMainloop` starts. -/
  | start (st : MouseState) : MouseStep st { st with started := true }
  | input (st : MouseState) (clickBits : UInt8) (deltaX deltaY : Int) (c : Nat)
      (hc : st.irq.call c = .idle) :
      MouseStep st (st.wmHandleMouseInput clickBits deltaX deltaY c)
  /-- `AllocPhys` posts that memory is low. -/
  | lowMemory (st : MouseState) (c : Nat) (hc : st.irq.call c = .idle) :
      MouseStep st { st with irq := st.irq.goto c (.enqueuing lowMemoryMsg st.irq.claimed) }
  /-- A step in `EnqueueIrqMessage` -/
  | enqueue (st : MouseState) (c : Nat) (spurious : Bool) (hc : sent (st.irq.call c) ≠ none) :
      MouseStep st { st with
        irq := advance st.irq c spurious
        overflowed := st.overflowed || isNoBufs ((advance st.irq c spurious).call c) }
  /-- `PostMessageIrq` after `EnqueueIrqMessage` returned -/
  | defer (st : MouseState) (c : Nat) (msg : Msg)
      (hc : st.irq.call c = .posted msg ∨ st.irq.call c = .noBufs msg) :
      MouseStep st { st with hasDeferMsg := true }
  /-- `ProcessIrqPostMessage` finds `has_defer_msg` set. -/
  | arrive (st : MouseState) (h : st.hasDeferMsg = true) :
      MouseStep st { st with entering := st.entering + 1 }
  /-- `AcquireScheduler` -/
  | enter (st : MouseState) (h : st.process = .outside) (hsome : 0 < st.entering) :
      MouseStep st { st with
        entering := st.entering - 1, hasDeferMsg := false, process := .loop }
  | dequeue (st : MouseState) (d : Nat) (h : st.process = .loop) (hd : st.irq.call d = .idle) :
      MouseStep st { st with
        irq := st.irq.goto d (.dequeuing st.irq.filled), process := .dequeuing d }
  /-- A step in `DequeueIrqMessage` -/
  | take (st : MouseState) (d : Nat) (spurious : Bool) (h : st.process = .dequeuing d)
      (hd : sent (st.irq.call d) = none) :
      MouseStep st { st with irq := advance st.irq d spurious }
  /-- `DequeueIrqMessage` returned 0, and a message is to be put into the box. -/
  | got (st : MouseState) (d : Nat) (msg : Msg) (source : Nat) (h : st.process = .dequeuing d)
      (hd : st.irq.call d = .got msg source) :
      MouseStep st { st with
        process := .posting msg source
        box := st.box.move 0 (.waitEmpty () (st.put msg)) () (st.box.box ()) }
  /-- `DequeueIrqMessage` returned `EAGAIN`: `ReleaseScheduler`. -/
  | leave (st : MouseState) (d : Nat) (h : st.process = .dequeuing d)
      (hd : st.irq.call d = .again) :
      MouseStep st { st with process := .outside }
  /-- A step in `KeTryReplaceOrAdd` or `KePostMessage`. It overflows without a unit of `empty_sem`. -/
  | post (st : MouseState) (msg : Msg) (source : Nat) (box : MsgState Unit Msg)
      (h : st.process = .posting msg source) (hcall : st.box.call 0 ≠ .idle)
      (hstep : MsgStep (fun _ => systemMsgboxSize) st.box 0 box)
      (hlock : LockTaken (st.box.call 0) (box.call 0)) :
      MouseStep st { st with
        box
        posted := if isPut (st.box.call 0) then st.posted ++ [(source, msg)] else st.posted
        overflowed := st.overflowed || (isWaitEmpty (st.box.call 0) && isIdle (box.call 0)) }
  /-- The call on the box has returned. -/
  | next (st : MouseState) (msg : Msg) (source : Nat) (h : st.process = .posting msg source)
      (hcall : st.box.call 0 = .idle) :
      MouseStep st { st with
        prevMouseMsg := if msg.isMouse then msg else st.prevMouseMsg, process := .loop }
  /-- `WmMainloop` calls `KeGetMessage`. -/
  | getMessage (st : MouseState) (hcall : st.box.call 1 = .idle)
      (hhandled : st.main.handled = (st.box.box ()).delivered) :
      MouseStep st { st with
        box := st.box.move 1 (.waitFilled [()] true) () (st.box.box ()) }
  /-- A step in `KeGetMessage` -/
  | get (st : MouseState) (box : MsgState Unit Msg) (hcall : st.box.call 1 ≠ .idle)
      (hstep : MsgStep (fun _ => systemMsgboxSize) st.box 1 box)
      (hlock : LockTaken (st.box.call 1) (box.call 1))
      (hmsg : MessageTaken (st.box.call 1) (box.call 1)) :
      MouseStep st { st with box }
  /-- `KeGetMessage` has returned with a message. -/
  | handle (st : MouseState) (msg : Msg) (hcall : st.box.call 1 = .idle)
      (hmsg : (st.box.box ()).delivered = st.main.handled ++ [msg]) :
      MouseStep st { st with main := st.main.processMessage msg }

/-- The mouse events among some messages -/
def mouseEvents (posted : List (Nat × Msg)) : List (Nat × Msg) := posted.filter fun p => p.2.isMouse

/-- What `HandleMouse` has seen -/
def MouseState.seen (st : MouseState) : List Msg := st.main.handled.filter Msg.isMouse

/-- The events in the order of `WmHandleMouseInput` -/
def MouseState.events (st : MouseState) : List Msg := st.reported.map Prod.snd

/-- Nothing is on its way. -/
structure MouseState.Quiet (st : MouseState) : Prop where
  drained : st.irq.Drained
  returned : ∀ c msg, sent (st.irq.call c) = some msg →
    st.irq.call c = .posted msg ∨ st.irq.call c = .noBufs msg
  outside : st.process = .outside
  empty : (st.box.box ()).count = 0
  handled : st.main.handled = (st.box.box ()).delivered

/--
The events that change the buttons are seen, in order and as they were; what is not seen is an event
that changed nothing but the position. When nothing is on its way, all such events were seen, and the
last event is the last one seen.
-/
structure MouseState.Faithful (st : MouseState) : Prop where
  ordered : changes Msg.iArg 0 st.seen <+: changes Msg.iArg 0 st.events
  sublist : List.Sublist st.seen st.events
  complete : st.Quiet → changes Msg.iArg 0 st.seen = changes Msg.iArg 0 st.events
  last : st.Quiet → st.seen.getLast? = st.events.getLast?
  /-- The variables of the main loop are the last event that was seen. -/
  shown : ∀ msg, st.seen.getLast? = some msg →
    st.main.mouseX = msg.x ∧ st.main.mouseY = msg.y ∧ st.main.mouseButtons = msg.iArg

/-- A mouse event that is about to be put into the box is the first that was reported of those that
were not put there yet. -/
def MouseState.InOrder (st : MouseState) : Prop :=
  match st.process, st.box.call 0 with
  | .posting msg source, .put _ _ =>
    msg.isMouse → st.reported[(mouseEvents st.posted).length]? = some (source, msg)
  | _, _ => True

/-- A mouse event that is about to be replaced in the box has the buttons of the one before it. -/
def MouseState.TailIsNoChange (st : MouseState) : Prop :=
  match st.process, st.box.call 0 with
  | .posting msg _, .put _ _ =>
    msg.isMouse → (st.box.box ()).count ≠ 0 →
      (st.box.box ()).slot ((st.box.box ()).tail systemMsgboxSize) = st.prevMouseMsg →
        st.prevMouseMsg.iArg =
          keyAfter Msg.iArg 0 (((st.box.box ()).accepted.filter Msg.isMouse).dropLast)
  | _, _ => True

/-- A step from a state that meets the condition -/
def MeetingStep (st st' : MouseState) : Prop :=
  MouseStep st st' ∧ st.InOrder ∧ st.TailIsNoChange

end Nolrem.Wm
