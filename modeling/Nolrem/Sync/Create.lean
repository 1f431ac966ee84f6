import Mathlib.Data.List.Nodup
import Nolrem.Sync.Sem

/-!
# Creating semaphores, clots and message boxes

`CreateSem`, `CreateMutex` and `CreateClot` of `kernel/sync/sem.c` and `CreateMessageBox` of
`kernel/sync/msgbox.c`, with what they allocate and free.
-/

namespace Nolrem.Sync.Create

/-! ## The heap -/

/-- The blocks that were allocated, with their bytes, and those that were freed -/
structure HeapLog where
  allocs : List (Nat × Nat)
  frees : List Nat
  /-- `NULL` was given to `DerefObject`. -/
  nullUsed : Bool
  sem : Nat → Sem

namespace HeapLog

/-- Nothing was allocated yet. -/
def start (sem : Nat → Sem) : HeapLog := ⟨[], [], false, sem⟩

/-- `AllocHeap`, where the heap answers with a block or without one -/
def allocHeap (h : HeapLog) (size : UInt32) (answer : Option Nat) : Option Nat × HeapLog :=
  if size = 0 then (none, h)
  else
    match answer with
    | none => (none, h)
    | some p => (some p, { h with allocs := h.allocs ++ [(p, size.toNat)] })

/-- `FreeHeap` -/
def freeHeap (h : HeapLog) (p : Nat) : HeapLog := { h with frees := h.frees ++ [p] }

/-- `DerefObject` on an object with one reference and no waiting thread, which frees it -/
def derefObject (h : HeapLog) : Option Nat → HeapLog
  | none => { h with nullUsed := true }
  | some p => h.freeHeap p

end HeapLog

/-! ## The code -/

/-- The `int` that a `size_t` turns into -/
def toInt (n : UInt32) : Int :=
  if n.toNat < 2147483648 then n.toNat else n.toNat - 4294967296

/-- `InitStaticSem` -/
def initStaticSem (max initial : Int) : Sem := ⟨initial, max, none, none⟩

/-- `sizeof(struct sem)` -/
def sizeofSem : UInt32 := 20

/-- `CreateSem` -/
def createSem (h : HeapLog) (answer : Option Nat) (max initial : Int) : Option Nat × HeapLog :=
  match h.allocHeap sizeofSem answer with
  | (none, h) => (none, h)
  | (some sem, h) =>
    (some sem, { h with sem := Function.update h.sem sem (initStaticSem max initial) })

/-- `CreateMutex` -/
def createMutex (h : HeapLog) (answer : Option Nat) : Option Nat × HeapLog := createSem h answer 1 0

/-- `struct msgbox` and where it is; `none` is `NULL`. -/
structure Box where
  addr : Nat
  data : Nat
  messageSize : UInt32
  maxCount : UInt32
  startIdx : Nat
  endIdx : Nat
  lock : Option Nat
  emptySem : Option Nat
  filledSem : Option Nat
  count : Int
deriving DecidableEq, Repr

/-- What the heap answers, in the order of the calls. It returns different blocks. -/
structure BoxAnswers where
  mbox : Option Nat
  data : Option Nat
  lock : Option Nat
  emptySem : Option Nat
  filledSem : Option Nat
  different : ([mbox, data, lock, emptySem, filledSem].filterMap id).Nodup

/-- `sizeof(struct msgbox)` -/
def sizeofMsgbox : UInt32 := 40

/-- `CreateMessageBox` -/
def createMessageBox (h : HeapLog) (messageSize maxCount : UInt32) (a : BoxAnswers) :
    Option Box × HeapLog :=
  match h.allocHeap sizeofMsgbox a.mbox with
  | (none, h) => (none, h)
  | (some mbox, h) =>
    match h.allocHeap (messageSize * maxCount) a.data with
    | (none, h) => (none, h.freeHeap mbox)
    | (some data, h) =>
      match createMutex h a.lock with
      | (none, h) => (none, (h.freeHeap data).freeHeap mbox)
      | (some lock, h) =>
        match createSem h a.emptySem (toInt maxCount) 0 with
        | (none, h) => (none, ((h.derefObject lock).freeHeap data).freeHeap mbox)
        | (some emptySem, h) =>
          let (filledSem, h) := createSem h a.filledSem (toInt maxCount) (toInt maxCount)
          -- `empty_sem` is tested a second time, and `filled_sem` is not
          if some emptySem = none then
            (none, (((h.derefObject none).derefObject lock).freeHeap data).freeHeap mbox)
          else
            (some
              { addr := mbox, data, messageSize, maxCount, startIdx := 0, endIdx := 0, lock
                emptySem, filledSem, count := 0 }, h)

/-! ## What it is for -/

/-- `AcquireSem` without waiting -/
def acquire (sem : Sem) : Option Sem :=
  if sem.count < sem.max then some { sem with count := sem.count + 1 } else none

/-- Everything that was allocated is freed, once. -/
def AllFreed (h : HeapLog) : Prop :=
  (h.allocs.map Prod.fst).Nodup ∧ h.frees.Perm (h.allocs.map Prod.fst) ∧ h.nullUsed = false

variable {sem : Sem} {n : Nat}

section Blocks

variable {h : HeapLog} {size : UInt32} {p : Nat} {max initial : Int}

theorem allocHeap_none : h.allocHeap size none = (none, h) := by
  unfold HeapLog.allocHeap
  split <;> rfl

theorem allocHeap_zero {answer : Option Nat} : h.allocHeap 0 answer = (none, h) :=
  if_pos rfl

theorem allocHeap_some (hsize : size ≠ 0) :
    h.allocHeap size (some p) = (some p, { h with allocs := h.allocs ++ [(p, size.toNat)] }) :=
  if_neg hsize

end Blocks

/-! ## Message boxes -/

variable (messageSize maxCount : UInt32) (a : BoxAnswers) (sem₀ : Nat → Sem)

end Nolrem.Sync.Create
