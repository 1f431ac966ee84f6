import Mathlib.Data.Nat.Log
import Mathlib.Tactic.IntervalCases
import Nolrem.Mem.Block

/-!
# Size classes

The tables of `kernel/mem/heapex.c` that tell which of the 24 free lists a block is on and
which lists hold blocks that are big enough for a request.
-/

namespace Nolrem.Mem

/-! ## Sizes and lists -/

def alignment : Nat := 8

def metadataTotal : Nat := 8

def minReqSize : Nat := 8

def totalNumFreeLists : Nat := 24

def freeListBlockSizes : List Nat :=
  [8, 16, 24, 32, 40, 48, 56, 64, 80, 96, 112, 128, 160, 192, 224, 256, 320, 384, 448, 512, 640,
    768, 896, 1024]

/-- The index of the lowest bit that is set. -/
def bitScanForward (v : Nat) : Nat := ((List.range 32).find? fun i => v.testBit i).getD 0

/-- The index of the highest bit that is set. -/
def bitScanReverse (v : Nat) : Nat := v.log2

def getInsertionIndex (size : Nat) : Nat :=
  if size < 64 then
    if size < 8 then 0 else (size >>> 3) - 1
  else if 1024 ≤ size then
    totalNumFreeLists - 1
  else
    7 + (bitScanReverse size - 6) * 4 + ((size >>> (bitScanReverse size - 2)) &&& 3)

def getSmallestListIndexThatFits (size : Nat) : Nat :=
  if size ≤ 8 then 0
  else if totalNumFreeLists ≤ getInsertionIndex (size - 1) + 1 then totalNumFreeLists - 1
  else getInsertionIndex (size - 1) + 1

/-- `RoundUpSize`; the sum wraps. -/
def roundUpSize (size : Nat) : Nat :=
  wadd (if size < minReqSize then minReqSize else size) (alignment - 1) &&& 4294967288

/-- The layout of the lists, without the search for the highest bit. -/
theorem getInsertionIndex_cases (p : Nat) :
    p < 8 ∧ getInsertionIndex p = 0 ∨ 8 ≤ p ∧ p < 64 ∧ getInsertionIndex p = p / 8 - 1 ∨
    64 ≤ p ∧ p < 128 ∧ getInsertionIndex p = p / 16 + 3 ∨
    128 ≤ p ∧ p < 256 ∧ getInsertionIndex p = p / 32 + 7 ∨
    256 ≤ p ∧ p < 512 ∧ getInsertionIndex p = p / 64 + 11 ∨
    512 ≤ p ∧ p < 1024 ∧ getInsertionIndex p = p / 128 + 15 ∨
    1024 ≤ p ∧ getInsertionIndex p = 23 := by
  have hband : ∀ k, 6 ≤ k → 2 ^ k ≤ p → p < 2 ^ (k + 1) →
      (p >>> (bitScanReverse p - 2)) &&& 3 = p / 2 ^ (k - 2) % 4 ∧ bitScanReverse p = k := by
    intro k hk h1 h2
    have hp : p ≠ 0 := by
      have := Nat.two_pow_pos k
      omega
    have hlog : bitScanReverse p = k := (Nat.log2_eq_iff hp).mpr ⟨h1, h2⟩
    rw [hlog, Nat.shiftRight_eq_div_pow]
    exact ⟨Nat.and_two_pow_sub_one_eq_mod (p / 2 ^ (k - 2)) 2, rfl⟩
  have hdiv : p >>> 3 = p / 8 := Nat.shiftRight_eq_div_pow p 3
  unfold getInsertionIndex totalNumFreeLists
  split
  · split <;> omega
  · split
    · omega
    · rcases lt_or_ge p 128 with h | h
      · obtain ⟨h1, h2⟩ := hband 6 (by omega) (by omega) (by omega)
        rw [h1, h2]
        omega
      rcases lt_or_ge p 256 with h' | h'
      · obtain ⟨h1, h2⟩ := hband 7 (by omega) (by omega) (by omega)
        rw [h1, h2]
        omega
      rcases lt_or_ge p 512 with h'' | h''
      · obtain ⟨h1, h2⟩ := hband 8 (by omega) (by omega) (by omega)
        rw [h1, h2]
        omega
      · obtain ⟨h1, h2⟩ := hband 9 (by omega) (by omega) (by omega)
        rw [h1, h2]
        omega

theorem getInsertionIndex_mono {p q : Nat} (h : p ≤ q) :
    getInsertionIndex p ≤ getInsertionIndex q := by
  have hp := getInsertionIndex_cases p
  have hq := getInsertionIndex_cases q
  omega

theorem getInsertionIndex_lt (p : Nat) : getInsertionIndex p < 24 := by
  have := getInsertionIndex_cases p
  omega

theorem getSmallestListIndexThatFits_lt (s : Nat) : getSmallestListIndexThatFits s < 24 := by
  unfold getSmallestListIndexThatFits totalNumFreeLists
  split_ifs <;> omega

/-- Every block of a list that fits, but the last one, is big enough. -/
theorem le_of_listFits {s p : Nat} (hp : 8 ≤ p)
    (h : getSmallestListIndexThatFits s ≤ getInsertionIndex p) (hlast : getInsertionIndex p ≠ 23) :
    s ≤ p := by
  by_contra hlt
  have hmono : getInsertionIndex p ≤ getInsertionIndex (s - 1) :=
    getInsertionIndex_mono (by omega)
  have := getInsertionIndex_lt (s - 1)
  unfold getSmallestListIndexThatFits totalNumFreeLists at h
  split_ifs at h <;> omega

theorem getInsertionIndex_blockSize :
    ∀ j < 24, getInsertionIndex (freeListBlockSizes.getD j 0) = j := by decide

/-- What is requested from the system fits the request with its metadata. -/
theorem le_nextSizeClass {s : Nat} (h : getSmallestListIndexThatFits s + 1 < 24) :
    s ≤ freeListBlockSizes.getD (getSmallestListIndexThatFits s + 1) 0 := by
  have hj := getInsertionIndex_blockSize _ h
  by_contra hlt
  have hmono : getInsertionIndex (freeListBlockSizes.getD (getSmallestListIndexThatFits s + 1) 0) ≤
      getInsertionIndex (s - 1) := getInsertionIndex_mono (by omega)
  rw [hj] at hmono
  have hzero : s ≤ 8 → getInsertionIndex (s - 1) = 0 := by
    intro hs
    have := getInsertionIndex_cases (s - 1)
    omega
  unfold getSmallestListIndexThatFits totalNumFreeLists at h hmono
  split_ifs at h hmono <;> omega

/-- The lowest bit that is set. -/
theorem bitScanForward_spec {v : Nat} (hv : v ≠ 0) (hlt : v < 4294967296) :
    v.testBit (bitScanForward v) = true ∧ bitScanForward v < 32 ∧
      ∀ j < bitScanForward v, v.testBit j = false := by
  unfold bitScanForward
  cases hf : (List.range 32).find? fun i => v.testBit i with
  | none =>
    obtain ⟨i, hi⟩ := Nat.exists_testBit_of_ne_zero hv
    have hi32 : i < 32 := by
      by_contra hge
      have hbig : v < 2 ^ i := lt_of_lt_of_le hlt
        (Nat.pow_le_pow_right (n := 2) (by decide) (show 32 ≤ i by omega))
      simp [Nat.testBit_lt_two_pow hbig] at hi
    have := List.find?_eq_none.mp hf i (List.mem_range.mpr hi32)
    simp [hi] at this
  | some i =>
    obtain ⟨h1, h2, h3⟩ := List.find?_range_eq_some.mp hf
    refine ⟨h1, List.mem_range.mp h2, fun j hj => ?_⟩
    simpa using h3 j hj

/-- Requests of more than `SIZE_MAX - 31` bytes wrap somewhere; the others are only rounded. -/
theorem roundUpSize_spec {size : Nat} (h : size ≤ 4294967264) :
    size ≤ roundUpSize size ∧ 8 ≤ roundUpSize size ∧ roundUpSize size % 8 = 0 ∧
      roundUpSize size ≤ 4294967264 := by
  have hround : roundUpSize size = ((if size < 8 then 8 else size) + 7) / 8 * 8 := by
    unfold roundUpSize minReqSize alignment
    rw [wadd_eq (by split <;> omega)]
    exact sizeBits_eq (by split <;> omega)
  rw [hround]
  split <;> omega

end Nolrem.Mem
