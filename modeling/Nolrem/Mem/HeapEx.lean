import Nolrem.Mem.SizeClass

/-!
# The heap

The functions of `kernel/mem/heapex.c`. Where memory comes from is a parameter: `get_memory`
reads and changes an environment `σ` that the heap does not look into. Every function here
runs under the lock of its caller.
-/

namespace Nolrem.Mem

/-- Why a call does not return. -/
inductive Fault where
  | outOfFuel
  /-- A spinlock is acquired that is already held. -/
  | deadlock
deriving DecidableEq, Repr

/-- A range of memory that `get_memory` returned. -/
structure Chunk where
  base : Nat
  len : Nat
deriving DecidableEq, Repr

/-- `get_memory`, called with the size that is needed. -/
abbrev GetMemory (σ : Type) := σ → Nat → Except Fault (σ × Option Chunk)

/-! ## Free lists -/

def listBit (i : Nat) : Nat := 1 <<< i

/-- `RemoveBlock` -/
def removeBlock (h : Heap) (i b : Nat) : Heap :=
  if h.prev b = 0 ∧ h.next b = 0 then
    { h.setHead i 0 with freeListBitmap := h.freeListBitmap &&& (4294967295 - listBit i) }
  else if h.prev b = 0 then
    (h.setHead i (h.next b)).setPrev (h.next b) 0
  else if h.next b = 0 then
    h.setNext (h.prev b) 0
  else
    let h1 := h.setNext (h.prev b) (h.next b)
    h1.setPrev (h1.next b) (h1.prev b)

/-- `GetInsertionIndex` of the size of a block. -/
def listOf (h : Heap) (b : Nat) : Nat := getInsertionIndex (wsub (getSize h b) metadataTotal)

/-- The case of `AddBlock` in which the neighbours are allocated. -/
def linkFree (h : Heap) (i b : Nat) : Heap :=
  let h := (h.setPrev b 0).setNext b (h.headBlock i)
  let h := if h.next b ≠ 0 then h.setPrev (h.next b) b else h
  let h := h.setHead i b
  markFree { h with freeListBitmap := h.freeListBitmap ||| listBit i } b

/-- `b` is made a free block that is on no list. -/
def resetFree (h : Heap) (b : Nat) : Heap := markFree ((h.setPrev b 0).setNext b 0) b

/-- `AddBlock` -/
def addBlock : Nat → Heap → Nat → Except Fault (Heap × Nat)
  | 0, _, _ => .error .outOfFuel
  | fuel + 1, h, b =>
    let size := getSize h b
    let prev := prevBlock h b
    let next := nextBlock b size
    if isAllocated h prev then
      if isAllocated h next then
        .ok (linkFree h (getInsertionIndex (wsub size metadataTotal)) b, b)
      else
        let h := removeBlock h (listOf h next) next
        addBlock fuel (resetFree (setSizeTags h b (wadd size (getSize h next))) b) b
    else if isAllocated h next then
      let h := removeBlock h (listOf h prev) prev
      addBlock fuel (resetFree (setSizeTags h prev (wadd size (getSize h prev))) prev) prev
    else
      let h := removeBlock h (listOf h prev) prev
      let h := removeBlock h (listOf h next) next
      addBlock fuel (resetFree (setSizeTags h prev
        (wadd (wadd size (getSize h prev)) (getSize h next))) prev) prev

/-! ## Allocation -/

/-- The case of `AllocateBlock` in which the whole block is used. -/
def takeWhole (h : Heap) (i b : Nat) : Heap :=
  markAllocated (setSizeTags (removeBlock h i b) b (getSize h b)) b

/-- A block is taken off its list and cut in two: the end of it is allocated. -/
def cutBlock (h : Heap) (i b leftover total : Nat) : Heap :=
  let allocated := plusBytes b leftover
  let h := setSizeTags (removeBlock h i b) b leftover
  markFree (markAllocated (setSizeTags h allocated total) allocated) b

/-- The case of `AllocateBlock` in which the block is cut; what is left over is put back. -/
def takeEnd (fuel : Nat) (h : Heap) (i b total : Nat) : Except Fault (Heap × Nat) := do
  let leftover := wsub (getSize h b) total
  let (h, _) ← addBlock fuel (cutBlock h i b leftover total) b
  .ok (h, plusBytes b leftover)

/-- `AllocateBlock` -/
def allocateBlock (fuel : Nat) (h : Heap) (b i request : Nat) : Except Fault (Heap × Nat) :=
  let total := wadd request metadataTotal
  if wsub (getSize h b) total < minReqSize + metadataTotal then
    .ok (takeWhole h i b, b)
  else
    takeEnd fuel h i b total

/-- The size tags that `RequestBlock` writes: a block between two fenceposts. -/
def layTags (h : Heap) (c : Chunk) : Heap :=
  let h := setSizeTags h c.base minReqSize
  let h := setSizeTags h (plusBytes c.base minReqSize) (wsub c.len (2 * minReqSize))
  setSizeTags h (plusBytes c.base (wsub c.len minReqSize)) minReqSize

/-- What `RequestBlock` does with the memory it gets. -/
def layOut (h : Heap) (c : Chunk) : Heap :=
  let block := plusBytes c.base minReqSize
  let right := plusBytes c.base (wsub c.len minReqSize)
  let h := ((layTags h c).setPrev block 0).setNext block 0
  let h := markFencepost (markFencepost h c.base) right
  let h := markAllocated (markAllocated h c.base) right
  markFree h block

/-- `RequestBlock`; the block is 0 if there is no memory. -/
def requestBlock {σ : Type} (getMemory : GetMemory σ) (e : σ) (h : Heap) (total : Nat) :
    Except Fault (σ × Heap × Nat) := do
  let (e, mem) ← getMemory e (wadd total (minReqSize * 2))
  match mem with
  | none => .ok (e, h, 0)
  | some c => .ok (e, layOut h c, plusBytes c.base minReqSize)

/-- The search of the last list in `FindBlock`. -/
def searchLast (h : Heap) (request : Nat) : Nat → Nat → Except Fault (Option Nat)
  | 0, _ => .error .outOfFuel
  | fuel + 1, current =>
    if current = 0 then
      .ok none
    else if request ≤ wsub (getSize h current) metadataTotal then
      .ok (some current)
    else
      searchLast h request fuel (h.next current)

/-- The first part of `FindBlock`: a free block that fits, and its list. -/
def findFree (fuel : Nat) (h : Heap) (request : Nat) : Except Fault (Option (Nat × Nat)) :=
  let candidates := h.freeListBitmap &&&
    (4294967295 <<< getSmallestListIndexThatFits request) % 4294967296
  if candidates ≠ 0 then
    let i := bitScanForward candidates
    if i ≠ totalNumFreeLists - 1 then
      .ok (some (h.headBlock i, i))
    else do
      let found ← searchLast h request fuel (h.headBlock i)
      .ok (found.map fun b => (b, i))
  else
    .ok none

/-- The size that `FindBlock` requests from the system. -/
def systemSize (request : Nat) : Nat :=
  let i := getSmallestListIndexThatFits request
  if i + 1 < totalNumFreeLists then
    wadd (freeListBlockSizes.getD (i + 1) 0) metadataTotal
  else
    wadd request metadataTotal

/-- The second part of `FindBlock`: new memory is put on its list and then allocated from. -/
def growAndAllocate {σ : Type} (getMemory : GetMemory σ) (fuel : Nat) (e : σ) (h : Heap)
    (request : Nat) : Except Fault (σ × Heap × Nat) := do
  let (e, h, sysBlock) ← requestBlock getMemory e h (systemSize request)
  if sysBlock = 0 then
    .ok (e, h, 0)
  else
    let (h, inserted) ← addBlock fuel h sysBlock
    let (h, b) ← allocateBlock fuel h inserted (listOf h inserted) request
    .ok (e, h, b)

/-- `FindBlock` -/
def findBlock {σ : Type} (getMemory : GetMemory σ) (fuel : Nat) (e : σ) (h : Heap)
    (request : Nat) : Except Fault (σ × Heap × Nat) := do
  match ← findFree fuel h request with
  | some (b, i) =>
    let (h, b) ← allocateBlock fuel h b i request
    .ok (e, h, b)
  | none => growAndAllocate getMemory fuel e h request

/-- `heap->outstanding_allocated_memory += GetSize(block)` -/
def Heap.countTaken (h : Heap) (b : Nat) : Heap :=
  { h with outstandingAllocatedMemory := wadd h.outstandingAllocatedMemory (getSize h b) }

/-- `heap->outstanding_allocated_memory -= GetSize(block)` -/
def Heap.countFreed (h : Heap) (b : Nat) : Heap :=
  { h with outstandingAllocatedMemory := wsub h.outstandingAllocatedMemory (getSize h b) }

/-- `AllocHeapEx` -/
def allocHeapEx {σ : Type} (getMemory : GetMemory σ) (fuel : Nat) (e : σ) (h : Heap)
    (size : Nat) : Except Fault (σ × Heap × Nat) :=
  if size = 0 then
    .ok (e, h, 0)
  else do
    let (e, h, b) ← findBlock getMemory fuel e h (roundUpSize size)
    if b = 0 then
      .ok (e, h, 0)
    else
      .ok (e, h.countTaken b, b + 4)

/-- `FreeHeapEx` -/
def freeHeapEx (fuel : Nat) (h : Heap) (ptr : Nat) : Except Fault Heap :=
  if ptr = 0 then
    .ok h
  else do
    let b := wsub ptr 4
    let h := (h.setPrev b 0).setNext b 0
    let (h, _) ← addBlock fuel (h.countFreed b) b
    .ok h

/-- `memcpy` of `4 * n` bytes, word by word. -/
def copyWords (h : Heap) (dst src : Nat) : Nat → Heap
  | 0 => h
  | n + 1 => copyWords (h.write dst (h.mem src)) (dst + 4) (src + 4) n

/-- `ReallocHeapEx` -/
def reallocHeapEx {σ : Type} (getMemory : GetMemory σ) (fuel : Nat) (e : σ) (h : Heap)
    (ptr newSize : Nat) : Except Fault (σ × Heap × Nat) :=
  if ptr = 0 then
    allocHeapEx getMemory fuel e h newSize
  else
    let oldPayload := wsub (getSize h (wsub ptr 4)) metadataTotal
    if newSize ≤ oldPayload then
      .ok (e, h, ptr)
    else do
      let (e, h, newPtr) ← allocHeapEx getMemory fuel e h newSize
      if newPtr = 0 then
        .ok (e, h, 0)
      else
        let h ← freeHeapEx fuel (copyWords h newPtr ptr (oldPayload / 4)) ptr
        .ok (e, h, newPtr)

/-! ## Purging -/

/-- `DoesFreeBlockSpanEntireChunk` -/
def doesFreeBlockSpanEntireChunk (h : Heap) (b : Nat) : Bool :=
  if isAllocated h b then false
  else isFencepost h (prevBlock h b) && isFencepost h (nextBlock b (getSize h b))

/-- The loop of `PurgeFreeAreasFromHeapEx` up to a block that spans its chunk. -/
def findWholeChunk (h : Heap) : Nat → Nat → Except Fault (Option Nat)
  | 0, _ => .error .outOfFuel
  | fuel + 1, b =>
    if b = 0 then .ok none
    else if doesFreeBlockSpanEntireChunk h b then .ok (some b)
    else findWholeChunk h fuel (h.next b)

/-- The range that is given back for a block that spans its chunk. -/
def chunkAround (h : Heap) (b : Nat) : Chunk :=
  let left := prevBlock h b
  let right := nextBlock b (getSize h b)
  { base := left, len := wsub (wadd right minReqSize) left }

/-- The loop of `PurgeFreeAreasFromHeapEx`; `fuel` bounds the restarts. -/
def purgeFrom (fuel : Nat) : Nat → Heap → List Chunk → Except Fault (Heap × List Chunk)
  | 0, _, _ => .error .outOfFuel
  | n + 1, h, given => do
    match ← findWholeChunk h fuel (h.headBlock (totalNumFreeLists - 1)) with
    | none => .ok (h, given)
    | some b =>
      let (h', _) ← allocateBlock fuel h b (totalNumFreeLists - 1)
        (wsub (getSize h b) metadataTotal)
      purgeFrom fuel n h' (given ++ [chunkAround h b])

/-- `PurgeFreeAreasFromHeapEx`, with the ranges that it passes to `return_memory`. -/
def purgeFreeAreasFromHeapEx (fuel : Nat) (h : Heap) : Except Fault (Heap × List Chunk) :=
  if h.returnsMemory = false then .ok (h, []) else purgeFrom fuel fuel h []

/-- `InitHeapEx`; it does not touch `outstanding_allocated_memory`. -/
def initHeapEx (h : Heap) (returnsMemory : Bool) : Heap :=
  { h with headBlock := fun _ => 0, freeListBitmap := 0, returnsMemory }

end Nolrem.Mem
