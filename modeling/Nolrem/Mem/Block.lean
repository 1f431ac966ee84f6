import Mathlib.Data.Nat.Bitwise
import Mathlib.Logic.Function.Basic
import Nolrem.Word

/-!
# Blocks of the heap

The data of `kernel/mem/heapex.c`. Memory is a function from addresses to words; a block is
named by its address. Its header is at offset 0, the links of a free block at 4 and 8, and the
trailing size tag in its last word.
-/

namespace Nolrem.Mem

/-! ## Header words -/

/-- `block->size & ~7` -/
def sizeBits (w : Nat) : Nat := w &&& 4294967288

/-- `(block->size & 7) | size` -/
def withSize (w size : Nat) : Nat := (w &&& 7) ||| size

def allocatedBit (w : Nat) : Bool := w &&& 1 ≠ 0

def fencepostBit (w : Nat) : Bool := w &&& 2 ≠ 0

theorem allocatedBit_eq (w : Nat) : allocatedBit w = w.testBit 0 := by
  simp only [allocatedBit, Nat.testBit_zero, Nat.and_one_is_mod]
  rcases Nat.mod_two_eq_zero_or_one w with h | h <;> simp [h]

theorem fencepostBit_eq (w : Nat) : fencepostBit w = w.testBit 1 := by
  have h : w &&& 2 = (w.testBit 1).toNat * 2 := by simpa using Nat.and_two_pow w 1
  unfold fencepostBit
  rw [h]
  cases w.testBit 1 <;> rfl

theorem testBit_low_of_mod {s i : Nat} (hs : s % 8 = 0) (hi : i < 3) : s.testBit i = false := by
  obtain ⟨k, rfl⟩ : ∃ k, s = 2 ^ 3 * k := ⟨s / 8, by omega⟩
  rw [Nat.testBit_two_pow_mul]
  simp
  omega

theorem testBit_seven (i : Nat) : (7 : Nat).testBit i = decide (i < 3) :=
  Nat.testBit_two_pow_sub_one (n := 3) i

theorem testBit_sizeMask (i : Nat) :
    (4294967288 : Nat).testBit i = (decide (3 ≤ i) && decide (i < 32)) := by
  have h : (4294967288 : Nat) = 2 ^ 3 * (2 ^ 29 - 1) := by decide
  rw [h, Nat.testBit_two_pow_mul, Nat.testBit_two_pow_sub_one]
  by_cases hi : 3 ≤ i
  · simp only [hi, decide_true, Bool.true_and, decide_eq_decide]
    omega
  · simp [hi]

theorem testBit_withSize {w s i : Nat} (hs : s % 8 = 0) :
    (withSize w s).testBit i = if i < 3 then w.testBit i else s.testBit i := by
  unfold withSize
  rw [Nat.testBit_or, Nat.testBit_and, testBit_seven]
  split
  · next hi => simp [hi, testBit_low_of_mod hs hi]
  · next hi => simp [hi]

@[simp] theorem sizeBits_withSize {w s : Nat} (hs : s % 8 = 0) (hlt : s < 4294967296) :
    sizeBits (withSize w s) = s := by
  refine Nat.eq_of_testBit_eq fun i => ?_
  unfold sizeBits
  rw [Nat.testBit_and, testBit_withSize hs, testBit_sizeMask]
  by_cases hi : i < 3
  · simp [hi, testBit_low_of_mod hs hi, show ¬ 3 ≤ i by omega]
  · by_cases hi' : i < 32
    · simp [hi, hi', show 3 ≤ i by omega]
    · have hbig : s < 2 ^ i := lt_of_lt_of_le hlt
        (Nat.pow_le_pow_right (n := 2) (by decide) (show 32 ≤ i by omega))
      simp [hi, hi', Nat.testBit_lt_two_pow hbig]

@[simp] theorem allocatedBit_withSize {w s : Nat} (hs : s % 8 = 0) :
    allocatedBit (withSize w s) = allocatedBit w := by
  rw [allocatedBit_eq, allocatedBit_eq, testBit_withSize hs]
  simp

@[simp] theorem fencepostBit_withSize {w s : Nat} (hs : s % 8 = 0) :
    fencepostBit (withSize w s) = fencepostBit w := by
  rw [fencepostBit_eq, fencepostBit_eq, testBit_withSize hs]
  simp

/-- A change of the flag `c` alone keeps the size. -/
theorem sizeBits_or {c : Nat} (hc : c < 8) (w : Nat) : sizeBits (w ||| c) = sizeBits w := by
  refine Nat.eq_of_testBit_eq fun i => ?_
  unfold sizeBits
  rw [Nat.testBit_and, Nat.testBit_and, testBit_sizeMask, Nat.testBit_or]
  by_cases hi : 3 ≤ i
  · have hbig : c < 2 ^ i := lt_of_lt_of_le hc
      (Nat.pow_le_pow_right (n := 2) (by decide) hi)
    simp [Nat.testBit_lt_two_pow hbig]
  · simp [hi]

theorem testBit_freeMask (i : Nat) :
    (4294967294 : Nat).testBit i = (decide (1 ≤ i) && decide (i < 32)) := by
  have h : (4294967294 : Nat) = 2 ^ 1 * (2 ^ 31 - 1) := by decide
  rw [h, Nat.testBit_two_pow_mul, Nat.testBit_two_pow_sub_one]
  by_cases hi : 1 ≤ i
  · simp only [hi, decide_true, Bool.true_and, decide_eq_decide]
    omega
  · simp [hi]

theorem flags_and_freeMask (w : Nat) : allocatedBit (w &&& 4294967294) = false ∧
    fencepostBit (w &&& 4294967294) = fencepostBit w := by
  rw [allocatedBit_eq, fencepostBit_eq, fencepostBit_eq, Nat.testBit_and, Nat.testBit_and,
    testBit_freeMask, testBit_freeMask]
  simp

theorem flags_or_one (w : Nat) : allocatedBit (w ||| 1) = true ∧
    fencepostBit (w ||| 1) = fencepostBit w := by
  have h0 : (1 : Nat).testBit 0 = true := by decide
  have h1 : (1 : Nat).testBit 1 = false := by decide
  rw [allocatedBit_eq, fencepostBit_eq, fencepostBit_eq, Nat.testBit_or, Nat.testBit_or, h0, h1,
    Bool.or_true, Bool.or_false]
  exact ⟨rfl, rfl⟩

@[simp] theorem fencepostBit_or_two (w : Nat) : fencepostBit (w ||| 2) = true := by
  rw [fencepostBit_eq, Nat.testBit_or]
  have : (2 : Nat).testBit 1 = true := by decide
  simp [this]

theorem sizeBits_and_freeMask (w : Nat) : sizeBits (w &&& 4294967294) = sizeBits w := by
  refine Nat.eq_of_testBit_eq fun i => ?_
  unfold sizeBits
  rw [Nat.testBit_and, Nat.testBit_and, Nat.testBit_and, testBit_sizeMask, testBit_freeMask]
  by_cases hi : 3 ≤ i
  · simp [hi, show 1 ≤ i by omega]
  · simp [hi]

theorem sizeBits_eq {w : Nat} (hw : w < 4294967296) : sizeBits w = w / 8 * 8 := by
  refine Nat.eq_of_testBit_eq fun i => ?_
  unfold sizeBits
  rw [Nat.testBit_and, testBit_sizeMask, show w / 8 * 8 = 2 ^ 3 * (w / 2 ^ 3) by omega,
    Nat.testBit_two_pow_mul, Nat.testBit_div_two_pow]
  by_cases hi : 3 ≤ i
  · by_cases hi' : i < 32
    · simp [hi, hi', show i - 3 + 3 = i by omega]
    · have hbig : w < 2 ^ i := lt_of_lt_of_le hw
        (Nat.pow_le_pow_right (n := 2) (by decide) (show 32 ≤ i by omega))
      simp [hi, hi', show i - 3 + 3 = i by omega, Nat.testBit_lt_two_pow hbig]
  · simp [hi]

theorem withSize_lt {w s : Nat} (hs : s < 4294967296) : withSize w s < 4294967296 :=
  Nat.or_lt_two_pow (n := 32) (lt_of_le_of_lt Nat.and_le_right (by decide)) hs

/-! ## The heap -/

/-- `struct heap` and the memory it manages; `_head_block` is 0 where a list is empty. -/
structure Heap where
  mem : Nat → Nat
  headBlock : Nat → Nat
  freeListBitmap : Nat
  outstandingAllocatedMemory : Nat
  /-- `return_memory != NULL` -/
  returnsMemory : Bool

def Heap.write (h : Heap) (a v : Nat) : Heap := { h with mem := Function.update h.mem a v }

def Heap.setHead (h : Heap) (i b : Nat) : Heap :=
  { h with headBlock := Function.update h.headBlock i b }

section Write

variable {h : Heap} {a v i b : Nat}

theorem write_mem (x : Nat) : (h.write a v).mem x = if x = a then v else h.mem x :=
  Function.update_apply ..

@[simp] theorem write_mem_self : (h.write a v).mem a = v := Function.update_self ..

@[simp] theorem write_mem_ne {x : Nat} (hx : x ≠ a) : (h.write a v).mem x = h.mem x :=
  Function.update_of_ne hx ..

@[simp] theorem write_headBlock : (h.write a v).headBlock = h.headBlock := rfl

@[simp] theorem write_bitmap : (h.write a v).freeListBitmap = h.freeListBitmap := rfl

@[simp] theorem setHead_mem : (h.setHead i b).mem = h.mem := rfl

@[simp] theorem setHead_self : (h.setHead i b).headBlock i = b := Function.update_self ..

@[simp] theorem setHead_ne {j : Nat} (hj : j ≠ i) :
    (h.setHead i b).headBlock j = h.headBlock j := Function.update_of_ne hj ..

@[simp] theorem setHead_bitmap : (h.setHead i b).freeListBitmap = h.freeListBitmap := rfl

end Write

def Heap.next (h : Heap) (b : Nat) : Nat := h.mem (b + 4)

def Heap.prev (h : Heap) (b : Nat) : Nat := h.mem (b + 8)

def Heap.setNext (h : Heap) (b v : Nat) : Heap := h.write (b + 4) v

def Heap.setPrev (h : Heap) (b v : Nat) : Heap := h.write (b + 8) v

def getSize (h : Heap) (b : Nat) : Nat := sizeBits (h.mem b)

def isAllocated (h : Heap) (b : Nat) : Bool := allocatedBit (h.mem b)

def isFencepost (h : Heap) (b : Nat) : Bool := fencepostBit (h.mem b)

def markFencepost (h : Heap) (b : Nat) : Heap := h.write b (h.mem b ||| 2)

def markFree (h : Heap) (b : Nat) : Heap := h.write b (h.mem b &&& 4294967294)

def markAllocated (h : Heap) (b : Nat) : Heap := h.write b (h.mem b ||| 1)

/-- `((size_t*) block) + n / sizeof(size_t)` -/
def plusBytes (b n : Nat) : Nat := wadd b (n / 4 * 4)

/-- `((size_t*) block) - n / sizeof(size_t)` -/
def minusBytes (b n : Nat) : Nat := wsub b (n / 4 * 4)

/-- The block before `b`, by its trailing size tag. -/
def prevBlock (h : Heap) (b : Nat) : Nat := minusBytes b (h.mem (wsub b 4))

/-- The block after `b`. -/
def nextBlock (b size : Nat) : Nat := plusBytes b size

def setSizeTags (h : Heap) (b size : Nat) : Heap :=
  (h.write b (withSize (h.mem b) size)).write (wsub (plusBytes b size) 4) size

theorem plusBytes_eq {b n : Nat} (hn : n % 4 = 0) (h : b + n < 4294967296) :
    plusBytes b n = b + n := by
  unfold plusBytes
  rw [wadd_eq (by omega)]
  omega

theorem minusBytes_eq {b n : Nat} (hn : n % 4 = 0) (h : n ≤ b) (hb : b < 4294967296) :
    minusBytes b n = b - n := by
  unfold minusBytes
  rw [wsub_eq (by omega) hb]
  omega

/-- A block may end where the address space does. -/
theorem trailer_eq {b n : Nat} (hn : n % 4 = 0) (hpos : 0 < n) (h : b + n ≤ 4294967296) :
    wsub (plusBytes b n) 4 = b + n - 4 := by
  unfold plusBytes wadd wsub
  omega

end Nolrem.Mem
