import Mathlib.Logic.Function.Basic
import Nolrem.Vfs.Name

/-!
# Asynchronous transfers

`CreateIO`, `SignalDoneIO` and `WaitIO` of `kernel/vfs/async.c`, `FileAccess` of
`kernel/vfs/vfs.c`, `Access` of `kernel/dev/partition.c` and `fat_io_abort` of
`kernel/fs/fat/fat_core.c`. A file is read through a stack of layers that ends at a device, and each
layer hands the next one an aio of its own.
-/

namespace Nolrem.Vfs

/-! ## The data -/

/-- `struct transfer`; the direction is that of the call. -/
structure Transfer where
  address : Int
  lengthRemaining : Int
  offset : Int
  blockable : Bool
deriving DecidableEq, Repr

/-- What is called once an aio is waited for, and its context. -/
inductive AioCallback where
  | none
  | fileAccess (aio : Nat)
  | partitionAccess (aio : Nat)
deriving DecidableEq, Repr

/-- `struct aio`. The mutex starts acquired. -/
structure Aio where
  mtxHeld : Bool
  callback : AioCallback
  transfer : Transfer
  nodeOrFile : Nat
  sub : Option Nat
  resultCode : Nat
  extraData : Int
  completed : Bool
deriving DecidableEq, Repr

/--
The aios by their address, and what was done to them: how often the reference to the node was
dropped, how often the aio was freed, and whether its mutex was destroyed. `next` is the address the
heap gives out next.
-/
structure IoState where
  aio : Nat → Aio
  next : Nat
  drops : Nat → Nat
  frees : Nat → Nat
  destroyed : Nat → Bool
  usedAfterFree : Bool
  signalledDestroyed : Bool

/-- `struct file` but for its node -/
structure FileInfo where
  obj : Nat
  canRead : Bool
  canWrite : Bool
  nonblock : Bool
deriving DecidableEq, Repr

/-- A vnode: a device, or a partition of a disk that is itself behind a file. -/
inductive IoNode where
  | device (obj : Nat)
  | partition (obj : Nat) (startByte lengthBytes : Int) (disk : FileInfo) (diskNode : IoNode)
deriving DecidableEq, Repr

/-- `node` itself -/
def IoNode.obj : IoNode → Nat
  | device obj => obj
  | partition obj _ _ _ _ => obj

/-- What the heap answers by address, and a device to a request. -/
structure IoEnv where
  allocs : Nat → Bool
  queues : Nat → Nat

/-- `EBADF` -/
def ebadf : Nat := 20

/-- `EALREADY` -/
def ealready : Nat := 4

namespace IoState

/-- An access through a pointer to an aio -/
def touch (w : IoState) (a : Nat) : IoState :=
  { w with usedAfterFree := w.usedAfterFree || decide (0 < w.frees a) }

/-- Changes the aio at `a`. -/
def modify (w : IoState) (a : Nat) (f : Aio → Aio) : IoState :=
  { w.touch a with aio := Function.update w.aio a (f (w.aio a)) }

/-- `CreateIO` -/
def createIo (w : IoState) (a nodeOrFile : Nat) (tr : Transfer) (callback : AioCallback) : IoState :=
  { w with
    aio := Function.update w.aio a
      { mtxHeld := true
        callback := callback
        transfer := tr
        nodeOrFile := nodeOrFile
        sub := none
        resultCode := 0
        extraData := 0
        completed := false }
    drops := Function.update w.drops a 0
    frees := Function.update w.frees a 0
    destroyed := Function.update w.destroyed a false }

/-- `SignalDoneIO` -/
def signalDoneIo (w : IoState) (a resultCode : Nat) : IoState :=
  { w.modify a (fun aio => { aio with
      resultCode := resultCode
      mtxHeld := false }) with
    signalledDestroyed := w.signalledDestroyed || w.destroyed a }

/-- `FreeHeap` of an aio -/
def freeHeap (w : IoState) (a : Nat) : IoState :=
  { w with frees := Function.update w.frees a (w.frees a + 1) }

/-- The transfer of a partition's aio after the disk's: it goes on by what the disk transferred. -/
def partitionTransfer (tr real : Transfer) (length : Int) : Transfer :=
  { tr with
    offset := tr.offset + (length - real.lengthRemaining)
    lengthRemaining := tr.lengthRemaining - (length - real.lengthRemaining)
    address := tr.address + (length - real.lengthRemaining) }

/-- `FileAccessAsyncCallback` and `PartitionAccessAsyncCallback` -/
def runCallback (w : IoState) : AioCallback → IoState
  | .none => w
  | .fileAccess a =>
    match (w.aio a).sub with
    | none => w
    | some sub =>
      let w := (w.touch sub).modify a fun aio => { aio with transfer := (w.aio sub).transfer }
      (w.signalDoneIo a (w.aio sub).resultCode).freeHeap sub
  | .partitionAccess a =>
    match (w.aio a).sub with
    | none => w
    | some sub =>
      let w :=
        if (w.aio sub).resultCode = 0 then
          (w.touch sub).modify a fun aio =>
            { aio with
              transfer :=
                partitionTransfer aio.transfer (w.aio sub).transfer (w.aio sub).extraData }
        else (w.touch sub).touch a
      (w.signalDoneIo a (w.aio sub).resultCode).freeHeap sub

/-- What `WaitIO` does to an aio it is done with: the node is dropped and the mutex destroyed. -/
def complete (w : IoState) (a : Nat) : IoState :=
  { w.modify a (fun aio => { aio with completed := true }) with
    drops := Function.update w.drops a (w.drops a + 1)
    destroyed := Function.update w.destroyed a true }

/-- A layer hands on an aio of its own: `AllocHeap`, `CreateIO` and the link from `a`. -/
def pushSub (w : IoState) (a nodeOrFile : Nat) (tr : Transfer) (callback : AioCallback)
    (extraData : Int) : IoState :=
  let sub := w.next
  let w := { w with next := w.next + 1 }
  ((w.createIo sub nodeOrFile tr callback).modify a fun aio => { aio with sub := some sub }).modify
    sub fun aio => { aio with extraData := extraData }

/-- `FileAccess` on an open file, where `access` is `VnodeRead` or `VnodeWrite` of its node -/
def fileAccess (env : IoEnv) (write : Bool) (file : FileInfo) (nodeObj : Nat)
    (access : IoState → Nat → IoState × Nat) (w : IoState) (a : Nat) : IoState × Nat :=
  if (w.aio a).transfer.address = 0 then (w, einval)
  else if (!write && !file.canRead) || (write && !file.canWrite) then (w, ebadf)
  else
    let w := w.modify a fun aio =>
      { aio with transfer := { aio.transfer with blockable := !file.nonblock } }
    if env.allocs w.next then
      access (w.pushSub a nodeObj (w.aio a).transfer (.fileAccess a) 0) w.next
    else (w, enomem)

/-- The transfer that a partition asks of its disk -/
def realTransfer (tr : Transfer) (startByte lengthBytes : Int) : Transfer :=
  { tr with
    lengthRemaining :=
      if lengthBytes < tr.offset + tr.lengthRemaining then lengthBytes - tr.offset
      else tr.lengthRemaining
    offset := tr.offset + startByte }

/-- The device is done with `leaf`: it has changed the transfer, and calls `SignalDoneIO`. -/
def deviceDone (w : IoState) (leaf : Nat) (tr : Transfer) (code : Nat) : IoState :=
  (w.modify leaf fun aio => { aio with transfer := tr }).signalDoneIo leaf code

end IoState

end Nolrem.Vfs
