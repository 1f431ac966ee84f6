import Nolrem.Cd.RectRegion
import Nolrem.Cd.RegionBuild

/-!
# Decoding the bands of a region

What one round of `IterateRegionCoroutine` makes of the bytes of each mode of `AddScanline`, and
what the decoder has after a number of bands.
-/

namespace Nolrem.Cd

open Nolrem.Lib

variable {get band : Nat → Nat} {b : BandHeader} {it : Iter} {c : BuildContext}
  {points : List (Int × Int)}

/-! ## Bytes -/

theorem uint16_lt (n : Int) : uint16 n < 65536 := (BitVec.ofInt 16 n).isLt

theorem s16_uint16 (n : Int) : s16 (uint16 n) = toInt16 n := by
  rw [s16, uint16, BitVec.ofNat_toNat, BitVec.setWidth_eq]
  rfl

theorem int16At_of_stored {ptr : Nat} {n : Int} (h : Stored get ptr (int16Bytes n)) :
    int16At get ptr = toInt16 n := by
  obtain ⟨hlow, hhigh, -⟩ := h
  rw [int16At, hlow, hhigh, Nat.mod_add_div, s16_uint16]

@[simp] theorem length_int16Bytes (n : Int) : (int16Bytes n).length = 2 := rfl

theorem length_fullSpans : (fullSpans points).length = 4 * points.length := by
  induction points with
  | nil => rfl
  | cons s points ih =>
    show (int16Bytes s.1 ++ int16Bytes s.2 ++ fullSpans points).length = _
    rw [List.length_append, ih]
    show 4 + 4 * points.length = 4 * (points.length + 1)
    omega

theorem length_lowBytes : (lowBytes points).length = 2 * points.length := by
  induction points with
  | nil => rfl
  | cons s points ih =>
    show ([uint16 s.1 % 256, uint16 s.2 % 256] ++ lowBytes points).length = _
    rw [List.length_append, ih]
    show 2 + 2 * points.length = 2 * (points.length + 1)
    omega

theorem length_adjBytes (i : Nat) : (c.adjBytes i points).length = points.length := by
  induction points generalizing i with
  | nil => rfl
  | cons s points ih =>
    rw [BuildContext.adjBytes, List.length_cons, ih, List.length_cons]

/-! ## The spans of a band -/

/-- The coordinates are `int16_t`. -/
def Narrow (points : List (Int × Int)) : Prop := ∀ s ∈ points, s.1 ∈ int16s ∧ s.2 ∈ int16s

theorem narrow_cons {s : Int × Int} :
    Narrow (s :: points) ↔ (toInt16 s.1 = s.1 ∧ toInt16 s.2 = s.2) ∧ Narrow points := by
  have hiff (n : Int) : n ∈ int16s ↔ toInt16 n = n := by
    refine ⟨fun h => toInt16_of_mem h.1 h.2, fun h => ?_⟩
    obtain ⟨k, -, hlow, hhigh⟩ := toInt16_spec n
    rw [h] at hlow hhigh
    exact ⟨hlow, hhigh⟩
  unfold Narrow
  rw [List.forall_mem_cons, hiff, hiff]

/-- The arrays after spans from number `j` on. -/
def Iter.setSpans (it : Iter) (j : Nat) (points : List (Int × Int)) : Iter :=
  { it with
    prevX0 := setPrev it.prevX0 j (points.map Prod.fst)
    prevX1 := setPrev it.prevX1 j (points.map Prod.snd) }

theorem Iter.setSpans_cons (j : Nat) (s : Int × Int) :
    it.setSpans j (s :: points) =
      (if j < 16 then
        { it with
          prevX0 := Function.update it.prevX0 j s.1, prevX1 := Function.update it.prevX1 j s.2 }
      else it).setSpans (j + 1) points := by
  by_cases hj : j < 16
  · rw [if_pos hj]
    simp only [setSpans, List.map_cons, setPrev, if_pos hj]
  · rw [if_neg hj]
    simp only [setSpans, List.map_cons, setPrev, if_neg hj]

theorem readSpans_full (hs : b.small = false) (hc : b.compactSpans = false) (j top ptr : Nat)
    (hst : Stored get ptr (fullSpans points)) (hn : Narrow points) :
    readSpans get b points.length j top ptr it =
      (points, ptr + 4 * points.length, it.setSpans j points) := by
  induction points generalizing j ptr it with
  | nil => rfl
  | cons s points ih =>
    obtain ⟨⟨h0, h1⟩, hn⟩ := narrow_cons.mp hn
    obtain ⟨hspan, hst⟩ := stored_append.mp hst
    obtain ⟨hx0, hx1⟩ := stored_append.mp hspan
    have hx0 := (int16At_of_stored hx0).trans h0
    have hx1 := (int16At_of_stored hx1).trans h1
    rw [List.length_cons, readSpans, hs, hc]
    simp only [Bool.false_eq_true, if_false]
    rw [length_int16Bytes] at hx1
    rw [hx0, hx1, ih (j + 1) (ptr + 4) hst hn, Iter.setSpans_cons]
    simp only [Prod.mk.injEq, true_and, and_true]
    omega

theorem readSpans_compact_succ (hs : b.small = false) (hc : b.compactSpans = true)
    (j top ptr : Nat) (htop : ∀ s ∈ points, uint16 s.1 / 256 = top ∧ uint16 s.2 / 256 = top)
    (hst : Stored get ptr (lowBytes points)) (hn : Narrow points) :
    readSpans get b points.length (j + 1) top ptr it =
      (points, ptr + 2 * points.length, it.setSpans (j + 1) points) := by
  induction points generalizing j ptr it with
  | nil => rfl
  | cons s points ih =>
    obtain ⟨⟨h0, h1⟩, hn⟩ := narrow_cons.mp hn
    obtain ⟨⟨ht0, ht1⟩, htop⟩ := List.forall_mem_cons.mp htop
    obtain ⟨hx0, hx1, hst⟩ := hst
    have hv0 : s16 (get ptr + 256 * top) = s.1 := by
      rw [hx0, ← ht0, Nat.mod_add_div, s16_uint16, h0]
    have hv1 : s16 (get (ptr + 1) + 256 * top) = s.2 := by
      rw [hx1, ← ht1, Nat.mod_add_div, s16_uint16, h1]
    rw [List.length_cons, readSpans, hs, hc]
    simp only [Bool.false_eq_true, if_false, if_true, Nat.succ_ne_zero]
    rw [hv0, hv1, ih (j + 1) (ptr + 2) htop hst hn, Iter.setSpans_cons]
    simp only [Prod.mk.injEq, true_and, and_true]
    omega

theorem readSpans_compact (hs : b.small = false) (hc : b.compactSpans = true) (ptr : Nat)
    (h0 : points ≠ []) (htop : haveTopByte points = true)
    (hst : Stored get ptr (topByte points :: lowBytes points)) (hn : Narrow points) :
    readSpans get b points.length 0 0 ptr it =
      (points, ptr + (1 + 2 * points.length), it.setSpans 0 points) := by
  cases points with
  | nil => exact absurd rfl h0
  | cons s points =>
    obtain ⟨⟨h0, h1⟩, hn⟩ := narrow_cons.mp hn
    have htop : ∀ q ∈ s :: points, uint16 q.1 / 256 = uint16 s.1 / 256 ∧
        uint16 q.2 / 256 = uint16 s.1 / 256 := by
      simpa [haveTopByte, topByte] using htop
    obtain ⟨⟨-, ht1⟩, htop⟩ := List.forall_mem_cons.mp htop
    obtain ⟨htb, hx0, hx1, hst⟩ := hst
    have htb : get ptr = uint16 s.1 / 256 := htb
    have hv0 : s16 (get (ptr + 1) + 256 * get ptr) = s.1 := by
      rw [hx0, htb, Nat.mod_add_div, s16_uint16, h0]
    have hv1 : s16 (get (ptr + 1 + 1) + 256 * get ptr) = s.2 := by
      rw [hx1, htb, ← ht1, Nat.mod_add_div, s16_uint16, h1]
    rw [List.length_cons, readSpans, hs, hc]
    simp only [Bool.false_eq_true, if_false, if_true]
    rw [hv0, hv1, htb, readSpans_compact_succ hs hc 0 _ (ptr + 1 + 2) htop hst hn,
      Iter.setSpans_cons]
    simp only [Prod.mk.injEq, true_and, and_true]
    omega

/-- Four bits of a difference give the coordinate back. -/
theorem toInt16_adjPart {old new : Int} (hd : BuildContext.smallDiff old new = true)
    (hnew : toInt16 new = new) :
    BuildContext.adjPart old new < 16 ∧
      toInt16 (old + ((BuildContext.adjPart old new : Nat) - 8)) = new := by
  obtain ⟨hlow, hhigh⟩ : -8 ≤ toInt16 (new - old) ∧ toInt16 (new - old) ≤ 7 := by
    simpa [BuildContext.smallDiff] using hd
  obtain ⟨k, hk, -, -⟩ := toInt16_spec (new - old)
  have hpart : (BuildContext.adjPart old new : Int) = toInt16 (new - old) + 8 := by
    unfold BuildContext.adjPart
    omega
  refine ⟨by omega, ?_⟩
  have hsum : old + ((BuildContext.adjPart old new : Int) - 8) = new + 65536 * k := by omega
  rw [hsum]
  rw [toInt16_eq_bmod] at hnew ⊢
  exact (Int.add_mul_bmod_self_left new 65536 k).trans hnew

theorem readSpans_small (hs : b.small = true) (j top ptr : Nat)
    (h0 : ∀ i, j ≤ i → it.prevX0 i = c.prevX0 i) (h1 : ∀ i, j ≤ i → it.prevX1 i = c.prevX1 i)
    (hp : c.possible j points = true) (hst : Stored get ptr (c.adjBytes j points))
    (hn : Narrow points) :
    readSpans get b points.length j top ptr it =
      (points, ptr + points.length, it.setSpans j points) := by
  induction points generalizing j ptr it with
  | nil => rfl
  | cons s points ih =>
    obtain ⟨⟨hn0, hn1⟩, hn⟩ := narrow_cons.mp hn
    simp only [BuildContext.possible, Bool.and_eq_true] at hp
    obtain ⟨⟨hd0, hd1⟩, hp⟩ := hp
    obtain ⟨hbyte, hst⟩ := hst
    obtain ⟨hlt0, hv0⟩ := toInt16_adjPart hd0 hn0
    obtain ⟨hlt1, hv1⟩ := toInt16_adjPart hd1 hn1
    have hlow : get ptr % 16 = BuildContext.adjPart (c.prevX0 j) s.1 := by omega
    have hhigh : get ptr / 16 % 16 = BuildContext.adjPart (c.prevX1 j) s.2 := by omega
    rw [List.length_cons, readSpans, hs]
    simp only [if_true]
    rw [hlow, hhigh, h0 j (Nat.le_refl j), h1 j (Nat.le_refl j), hv0, hv1,
      ih (j + 1) (ptr + 1) _ _ hp hst hn, Iter.setSpans_cons]
    · simp only [Prod.mk.injEq, true_and, and_true]
      omega
    all_goals
      intro i hi
      have hne : i ≠ j := by omega
      split_ifs
      · first
        | exact (Function.update_of_ne hne _ _).trans (h0 i (by omega))
        | exact (Function.update_of_ne hne _ _).trans (h1 i (by omega))
      · first
        | exact h0 i (by omega)
        | exact h1 i (by omega)

/-! ## A band -/

/-- The indices of `band_data` that a round of `IterateRegionCoroutine` reads. -/
def readsOfBand (band : Nat → Nat) (it : Iter) : List Nat :=
  let start := it.ptr
  let (inRepeat, it') := readControl band it
  if inRepeat then
    -- the control byte is read in any case, the number of repeats once
    if it.numRepeats = 0 ∧ band start = 0x7E then [start, start + 1] else [start]
  else
    let b := readHeader band start it'.prevY1
    List.range' start ((readSpans band b b.numSpans 0 0 b.ptr it').2.1 - start)

/-- The decoder has what the encoder has kept of the last band. -/
structure Synced (c : BuildContext) (it : Iter) : Prop where
  prevX0 : it.prevX0 = c.prevX0
  prevX1 : it.prevX1 = c.prevX1
  prevY1 : c.prevSpans ≠ 0 → it.prevY1 = c.prevY1
  small : Stored it.prevSmallMode 0 c.prevSmallOutput

/-- A round that reads `size` bytes gives the band `e`, and then the decoder has what `c` has. -/
structure Round (band : Nat → Nat) (it : Iter) (size : Nat) (e : Band) (c : BuildContext) :
    Prop where
  value : (nextBand band it).1 = e
  synced : Synced c (nextBand band it).2
  ptr : (nextBand band it).2.ptr = it.ptr + size
  numRepeats : (nextBand band it).2.numRepeats = 0
  used0x7E : (nextBand band it).2.used0x7E = false
  reads : ∀ i ∈ readsOfBand band it, i < it.ptr + size

/-- The context after the band `e`. -/
def BuildContext.after (c : BuildContext) (e : Band) (smallOutput : List Nat) : BuildContext :=
  { c with
    prevX0 := setPrev c.prevX0 0 (e.spans.map Prod.fst)
    prevX1 := setPrev c.prevX1 0 (e.spans.map Prod.snd)
    prevY1 := e.y1
    prevSpans := e.spans.length
    prevSmallOutput := smallOutput }

theorem readControl_plain (hrep : it.numRepeats = 0) (h7F : band it.ptr ≠ 0x7F)
    (h7E : band it.ptr ≠ 0x7E) : readControl band it = (false, it) := by
  rw [readControl, hrep, if_neg (Nat.lt_irrefl 0), if_neg h7F, if_neg h7E]

/-- A band that is not a repeat: its header is `b`, and its spans are `points`. -/
theorem round_plain (hsync : Synced c it) (hrep : it.numRepeats = 0) (hused : it.used0x7E = false)
    (h7F : band it.ptr ≠ 0x7F) (h7E : band it.ptr ≠ 0x7E) {size : Nat} {output : List Nat}
    (hb : readHeader band it.ptr it.prevY1 = b)
    (hspans : readSpans band b b.numSpans 0 0 b.ptr it =
      (points, it.ptr + size, it.setSpans 0 points))
    (hsmall : b.small = true → Stored band it.ptr output ∧ output.length = size)
    (hregular : b.small = false → output = c.prevSmallOutput) :
    Round band it size ⟨b.y0, b.y1, points⟩ (c.after ⟨b.y0, b.y1, points⟩ output) := by
  have hcontrol := readControl_plain hrep h7F h7E
  have hnext : nextBand band it = (⟨b.y0, b.y1, points⟩,
      { it.setSpans 0 points with
        prevY1 := b.y1
        ptr := it.ptr + size
        prevSmallMode := if b.small then
          fun i => if i < size then band (it.ptr + i) else it.prevSmallMode i
        else it.prevSmallMode }) := by
    unfold nextBand
    rw [hcontrol]
    simp only [Bool.false_eq_true, if_false, hb, hspans, Bool.not_false, Bool.and_true,
      Nat.add_sub_cancel_left, leaveBand]
    cases b.small <;> rfl
  have hreads : readsOfBand band it = List.range' it.ptr size := by
    unfold readsOfBand
    rw [hcontrol]
    simp only [Bool.false_eq_true, if_false, hb, hspans, Nat.add_sub_cancel_left]
  refine ⟨by rw [hnext], ?_, by rw [hnext], ?_, ?_, fun i hi => ?_⟩
  · rw [hnext]
    refine ⟨?_, ?_, fun _ => rfl, ?_⟩
    · show setPrev it.prevX0 0 _ = setPrev c.prevX0 0 _
      rw [hsync.prevX0]
    · show setPrev it.prevX1 0 _ = setPrev c.prevX1 0 _
      rw [hsync.prevX1]
    · show Stored (if b.small = true then
          fun i => if i < size then band (it.ptr + i) else it.prevSmallMode i
        else it.prevSmallMode) 0 output
      by_cases hs : b.small = true
      · obtain ⟨hst, hlen⟩ := hsmall hs
        rw [if_pos hs]
        refine hst.move fun i hi => ?_
        rw [hlen] at hi
        rw [Nat.zero_add, if_pos hi]
      · rw [if_neg hs, hregular (Bool.eq_false_iff.mpr hs)]
        exact hsync.small
  · rw [hnext]
    exact hrep
  · rw [hnext]
    exact hused
  · rw [hreads, List.mem_range'_1] at hi
    exact hi.2

/-! ## The modes -/

/-- The band that a context describes once it is encoded. -/
def BuildContext.toBand (c : BuildContext) (points : List (Int × Int)) : Band :=
  { y0 := c.prevY1, y1 := toInt16 (c.prevY1 + c.currentHeight), spans := points }

/-- What the callers of `AddScanline` give it. The rows may leave the 16 bits at the end. -/
structure Fits (c : BuildContext) (points : List (Int × Int)) : Prop where
  narrow : Narrow points
  length : points.length ≤ 16383
  height : 0 < c.currentHeight
  start : toInt16 c.prevY1 = c.prevY1

section Modes

variable (hfits : Fits c points) (hsync : Synced c it) (hrep : it.numRepeats = 0)
  (hused : it.used0x7E = false)

include hfits hsync hrep hused

theorem round_full
    (hst : Stored band it.ptr ((0x80 + 0x40 + points.length % 64) :: (points.length / 64 % 256) ::
      int16Bytes c.prevY1 ++ int16Bytes (c.prevY1 + c.currentHeight) ++ fullSpans points)) :
    Round band it (6 + points.length * 4) (c.toBand points)
      (c.after (c.toBand points) c.prevSmallOutput) := by
  obtain ⟨hhead, hspans⟩ := stored_append.mp hst
  obtain ⟨⟨hctrl, hhigh, hy0⟩, hy1⟩ := stored_append.mp hhead
  have hy1 : int16At band (it.ptr + 4) = toInt16 (c.prevY1 + c.currentHeight) :=
    int16At_of_stored hy1
  have hlength := hfits.length
  have h128 : band it.ptr / 128 % 2 = 1 := by omega
  have h64 : band it.ptr / 64 % 2 = 1 := by omega
  have hnum : band it.ptr % 64 + 64 * band (it.ptr + 1) = points.length := by omega
  have hb : readHeader band it.ptr it.prevY1 =
      { numSpans := points.length, y0 := c.prevY1, y1 := toInt16 (c.prevY1 + c.currentHeight)
        ptr := it.ptr + 6, small := false, compactSpans := false } := by
    unfold readHeader
    dsimp only
    rw [if_pos h128, if_pos h64, hnum, int16At_of_stored hy0, hfits.start, hy1]
  refine round_plain hsync hrep hused (by omega) (by omega) hb ?_ (by rintro ⟨⟩) fun _ => rfl
  rw [readSpans_full rfl rfl 0 0 (it.ptr + 6) hspans hfits.narrow]
  simp only [Prod.mk.injEq, true_and, and_true]
  omega

theorem round_compact (h1 : c.currentHeight = 1) (hle : points.length ≤ 31)
    (hst : Stored band it.ptr ((0x80 + points.length % 32) ::
      int16Bytes c.prevY1 ++ fullSpans points)) :
    Round band it (3 + points.length * 4) (c.toBand points)
      (c.after (c.toBand points) c.prevSmallOutput) := by
  obtain ⟨⟨hctrl, hy0⟩, hspans⟩ := stored_append.mp hst
  have h128 : band it.ptr / 128 % 2 = 1 := by omega
  have h64 : ¬ band it.ptr / 64 % 2 = 1 := by omega
  have hnum : band it.ptr % 32 = points.length := by omega
  have h32 : ¬ band it.ptr / 32 % 2 = 1 := by omega
  have hy1 : toInt16 (c.prevY1 + 1) = toInt16 (c.prevY1 + c.currentHeight) := by
    rw [h1]
    rfl
  have hb : readHeader band it.ptr it.prevY1 =
      { numSpans := points.length, y0 := c.prevY1, y1 := toInt16 (c.prevY1 + c.currentHeight)
        ptr := it.ptr + 3, small := false, compactSpans := false } := by
    unfold readHeader
    dsimp only
    rw [if_pos h128, if_neg h64, hnum, int16At_of_stored hy0, hfits.start, hy1,
      decide_eq_false h32]
  refine round_plain hsync hrep hused (by omega) (by omega) hb ?_ (by rintro ⟨⟩) fun _ => rfl
  rw [readSpans_full rfl rfl 0 0 (it.ptr + 3) hspans hfits.narrow]
  simp only [Prod.mk.injEq, true_and, and_true]
  omega

theorem round_compactSpans (h1 : c.currentHeight = 1) (h0 : points ≠ []) (hle : points.length ≤ 31)
    (htop : haveTopByte points = true)
    (hst : Stored band it.ptr ((0x80 + 0x20 + points.length % 32) ::
      int16Bytes c.prevY1 ++ topByte points :: lowBytes points)) :
    Round band it (3 + points.length * 2 + 1) (c.toBand points)
      (c.after (c.toBand points) c.prevSmallOutput) := by
  obtain ⟨⟨hctrl, hy0⟩, hspans⟩ := stored_append.mp hst
  have h128 : band it.ptr / 128 % 2 = 1 := by omega
  have h64 : ¬ band it.ptr / 64 % 2 = 1 := by omega
  have hnum : band it.ptr % 32 = points.length := by omega
  have h32 : band it.ptr / 32 % 2 = 1 := by omega
  have hy1 : toInt16 (c.prevY1 + 1) = toInt16 (c.prevY1 + c.currentHeight) := by
    rw [h1]
    rfl
  have hb : readHeader band it.ptr it.prevY1 =
      { numSpans := points.length, y0 := c.prevY1, y1 := toInt16 (c.prevY1 + c.currentHeight)
        ptr := it.ptr + 3, small := false, compactSpans := true } := by
    unfold readHeader
    dsimp only
    rw [if_pos h128, if_neg h64, hnum, int16At_of_stored hy0, hfits.start, hy1,
      decide_eq_true h32]
  refine round_plain hsync hrep hused (by omega) (by omega) hb ?_ (by rintro ⟨⟩) fun _ => rfl
  rw [readSpans_compact rfl rfl (it.ptr + 3) h0 htop hspans hfits.narrow]
  simp only [Prod.mk.injEq, true_and, and_true]
  omega

end Modes

/-- When small mode is used. -/
theorem useSmall_spec {numBands : Nat} (h : c.useSmall numBands points = true) :
    points.length = c.prevSpans ∧ points.length ≠ 0 ∧ c.currentHeight ≤ 8 ∧ points.length ≤ 15 ∧
      0 < numBands ∧ c.possible 0 points = true ∧
      points.length + 16 * (c.currentHeight - 1) ≠ 0x7F ∧
      points.length + 16 * (c.currentHeight - 1) ≠ 0x7E := by
  simpa [BuildContext.useSmall, and_assoc] using h

/-- A band in small mode, read from `band_data` or from the copy of the last one. -/
theorem read_smallOutput (hfits : Fits c points) (hsync : Synced c it) {numBands ptr : Nat}
    (huse : c.useSmall numBands points = true) (hst : Stored get ptr (c.smallOutput points)) :
    readHeader get ptr it.prevY1 =
        { numSpans := points.length, y0 := c.prevY1, y1 := toInt16 (c.prevY1 + c.currentHeight)
          ptr := ptr + 1, small := true, compactSpans := false } ∧
      ∀ b : BandHeader, b.small = true → readSpans get b points.length 0 0 (ptr + 1) it =
        (points, ptr + (c.smallOutput points).length, it.setSpans 0 points) := by
  obtain ⟨hprev, h0, hheight, hlength, -, hpossible, -, -⟩ := useSmall_spec huse
  obtain ⟨hctrl, hst⟩ := hst
  have hpos := hfits.height
  have h128 : ¬ get ptr / 128 % 2 = 1 := by omega
  have hnum : get ptr % 16 = points.length := by omega
  have hrows : get ptr / 16 % 8 = c.currentHeight - 1 := by omega
  have hsum : c.prevY1 + 1 + ((c.currentHeight - 1 : Nat) : Int) = c.prevY1 + c.currentHeight := by
    omega
  have hlen : (c.smallOutput points).length = 1 + points.length := by
    rw [BuildContext.smallOutput, List.length_cons, length_adjBytes, Nat.add_comm]
  constructor
  · unfold readHeader
    dsimp only
    rw [if_neg h128, hnum, hrows, hsync.prevY1 (hprev ▸ h0), hsum]
  · intro b hb
    rw [readSpans_small hb 0 0 (ptr + 1) (fun i _ => congrFun hsync.prevX0 i)
      (fun i _ => congrFun hsync.prevX1 i) hpossible hst hfits.narrow, hlen, Nat.add_assoc]

theorem round_small (hfits : Fits c points) (hsync : Synced c it) (hrep : it.numRepeats = 0)
    (hused : it.used0x7E = false) {numBands : Nat} (huse : c.useSmall numBands points = true)
    (hst : Stored band it.ptr (c.smallOutput points)) :
    Round band it (c.smallOutput points).length (c.toBand points)
      (c.after (c.toBand points) (c.smallOutput points)) := by
  obtain ⟨-, -, -, -, -, -, h7F, h7E⟩ := useSmall_spec huse
  obtain ⟨hb, hspans⟩ := read_smallOutput hfits hsync huse hst
  have hctrl := hst.1
  exact round_plain hsync hrep hused (by omega) (by omega) hb (hspans _ rfl)
    (fun _ => ⟨hst, rfl⟩) (by rintro ⟨⟩)

/-- A band that is the last one in small mode again, with `n` repeats after it. -/
theorem repeated (hfits : Fits c points) (hsync : Synced c it) {numBands n : Nat} {used : Bool}
    (huse : c.useSmall numBands points = true) (hsame : c.smallOutput points = c.prevSmallOutput)
    (hcontrol : readControl band it = (true, { it with numRepeats := n, used0x7E := used })) :
    (nextBand band it).1 = c.toBand points ∧
      Synced (c.after (c.toBand points) (c.smallOutput points)) (nextBand band it).2 ∧
      (nextBand band it).2.numRepeats = n ∧
      (nextBand band it).2.used0x7E = (used && n ≠ 0) ∧
      (nextBand band it).2.ptr =
        if n = 0 then if used then it.ptr + 2 else it.ptr + 1 else it.ptr := by
  have hsync' : Synced c { it with numRepeats := n, used0x7E := used } :=
    ⟨hsync.prevX0, hsync.prevX1, hsync.prevY1, hsync.small⟩
  obtain ⟨hb, hspans⟩ := read_smallOutput hfits hsync' huse (hsame ▸ hsync.small)
  have hnext : nextBand band it = (c.toBand points,
      leaveBand true it.ptr (0 + (c.smallOutput points).length)
        { it.setSpans 0 points with
          prevY1 := toInt16 (c.prevY1 + c.currentHeight), numRepeats := n, used0x7E := used }) := by
    unfold nextBand
    rw [hcontrol]
    simp only [if_true]
    dsimp only at hb
    rw [hb]
    dsimp only
    rw [hspans _ rfl]
    rfl
  have hsynced (ptr : Nat) (used : Bool) :
      Synced (c.after (c.toBand points) (c.smallOutput points))
        { it.setSpans 0 points with
          prevY1 := toInt16 (c.prevY1 + c.currentHeight), numRepeats := n, ptr, used0x7E := used } :=
    ⟨congrArg (setPrev · 0 (points.map Prod.fst)) hsync.prevX0,
      congrArg (setPrev · 0 (points.map Prod.snd)) hsync.prevX1, fun _ => rfl, hsame ▸ hsync.small⟩
  rw [hnext, leaveBand, if_pos rfl]
  rcases Nat.eq_zero_or_pos n with rfl | hn
  · rw [if_pos rfl]
    cases used with
    | true => exact ⟨rfl, hsynced _ _, rfl, rfl, rfl⟩
    | false => exact ⟨rfl, hsynced _ _, rfl, rfl, rfl⟩
  · have hne : n ≠ 0 := Nat.ne_of_gt hn
    rw [if_neg hne, if_neg hne, decide_eq_true hne, Bool.and_true]
    exact ⟨rfl, hsynced _ _, rfl, rfl, rfl⟩

/-! ## Runs of the decoder -/

/-- The context of the decoder after `n` bands. -/
def iterAfter (band : Nat → Nat) (n : Nat) (it : Iter) : Iter :=
  (fun it => (nextBand band it).2)^[n] it

/-- What is read in `n` rounds. -/
def readsOfBands (band : Nat → Nat) : Nat → Iter → List Nat
  | 0, _ => []
  | n + 1, it => readsOfBand band it ++ readsOfBands band n (nextBand band it).2

theorem iterAfter_succ (n : Nat) :
    iterAfter band (n + 1) it = (nextBand band (iterAfter band n it)).2 :=
  Function.iterate_succ_apply' _ n it

theorem bands_succ (n : Nat) :
    bands band (n + 1) it = bands band n it ++ [(nextBand band (iterAfter band n it)).1] := by
  induction n generalizing it with
  | zero => rfl
  | succ n ih =>
    rw [bands, ih, bands]
    rfl

/-- Fewer bands are the first of them. -/
theorem take_bands {n m : Nat} (h : n ≤ m) : (bands band m it).take n = bands band n it := by
  induction m generalizing n it with
  | zero =>
    obtain rfl := Nat.le_zero.mp h
    rfl
  | succ m ih =>
    cases n with
    | zero => rfl
    | succ n => exact congrArg _ (ih (Nat.le_of_succ_le_succ h))

theorem readsOfBands_succ (n : Nat) :
    readsOfBands band (n + 1) it =
      readsOfBands band n it ++ readsOfBand band (iterAfter band n it) := by
  induction n generalizing it with
  | zero => exact List.append_nil _
  | succ n ih =>
    rw [readsOfBands, ih, readsOfBands, List.append_assoc]
    rfl

/-- The bytes for `n` repeats of the last band in small mode. -/
def repeatBytes : Nat → List Nat
  | 0 => []
  | 1 => [0x7F]
  | n + 2 => [0x7E, n]

/--
The decoder goes through the bands `bs` of `bytes` and of the first `count0x7F` of the `m` repeats
behind them.
-/
structure Decoded (band : Nat → Nat) (c : BuildContext) (bytes : List Nat) (m : Nat)
    (bs : List Band) : Prop where
  value : bands band bs.length createIterationContext = bs
  synced : Synced c (iterAfter band bs.length createIterationContext)
  numRepeats : (iterAfter band bs.length createIterationContext).numRepeats = m - c.count0x7F
  used0x7E : (iterAfter band bs.length createIterationContext).used0x7E =
    decide (c.count0x7F < m)
  ptr : (iterAfter band bs.length createIterationContext).ptr =
    if c.count0x7F < m then bytes.length else (bytes ++ repeatBytes m).length
  reads : ∀ i ∈ readsOfBands band bs.length createIterationContext,
    i < (bytes ++ repeatBytes m).length

/--
However many repeats there will be at the end, the first bands are `bs`. This is kept by every step
of the encoder, also where it changes the bytes of a repeat.
-/
def Decodes (c : BuildContext) (bytes : List Nat) (bs : List Band) : Prop :=
  ∀ m band, c.count0x7F ≤ m → (c.count0x7F = 0 → m = 0) → m ≤ 257 →
    Stored band 0 (bytes ++ repeatBytes m) → Decoded band c bytes m bs

theorem decodes_nil (hc : c.count0x7F = 0) (hprev : c.prevSpans = 0) (hx0 : c.prevX0 = fun _ => 0)
    (hx1 : c.prevX1 = fun _ => 0) (hsmall : c.prevSmallOutput = []) : Decodes c [] [] := by
  rintro m band - hm - -
  obtain rfl := hm hc
  refine ⟨rfl, ⟨hx0.symm, hx1.symm, fun h => absurd hprev h, hsmall ▸ stored_nil⟩, ?_, ?_, ?_, ?_⟩
  · rw [hc]
    rfl
  · rw [hc]
    rfl
  · rw [hc]
    rfl
  · rintro i ⟨⟩

/-- The repeats are complete. -/
theorem Decodes.commit {bytes : List Nat} {bs : List Band} (h : Decodes c bytes bs)
    (hle : c.count0x7F ≤ 257) {c' : BuildContext} (hc' : c'.count0x7F = 0)
    (hsync : ∀ it, Synced c it → Synced c' it) :
    Decodes c' (bytes ++ repeatBytes c.count0x7F) bs := by
  rintro m band - hm - hst
  obtain rfl := hm hc'
  have hst : Stored band 0 (bytes ++ repeatBytes c.count0x7F) := (stored_append.mp hst).1
  have hd := h c.count0x7F band (Nat.le_refl _) (fun h0 => h0) hle hst
  refine ⟨hd.value, hsync _ hd.synced, ?_, ?_, ?_, ?_⟩
  · rw [hd.numRepeats, hc', Nat.sub_self]
  · rw [hd.used0x7E, hc', decide_eq_false (Nat.lt_irrefl _), decide_eq_false (Nat.lt_irrefl _)]
  · rw [hd.ptr, hc', if_neg (Nat.lt_irrefl _), if_neg (Nat.lt_irrefl _), repeatBytes,
      List.append_nil]
  · intro i hi
    rw [repeatBytes, List.append_nil]
    exact hd.reads i hi

/-- A band is encoded that is not a repeat. -/
theorem Decodes.append {bytes output : List Nat} {bs : List Band} {e : Band} {c' : BuildContext}
    (h : Decodes c bytes bs) (hc : c.count0x7F = 0) (hc' : c'.count0x7F = 0)
    (hround : ∀ band it, Synced c it → it.numRepeats = 0 → it.used0x7E = false →
      Stored band it.ptr output → Round band it output.length e c') :
    Decodes c' (bytes ++ output) (bs ++ [e]) := by
  rintro m band - hm - hst
  obtain rfl := hm hc'
  obtain ⟨hst, hout⟩ := stored_append.mp (stored_append.mp hst).1
  have hd := h 0 band (by rw [hc]) (fun _ => rfl) (by decide)
    (by rwa [repeatBytes, List.append_nil])
  rw [Nat.zero_add] at hout
  have hptr := hd.ptr
  rw [hc, if_neg (Nat.lt_irrefl 0), repeatBytes, List.append_nil] at hptr
  have hused := hd.used0x7E
  rw [hc] at hused
  have hr := hround band _ hd.synced (hd.numRepeats.trans (Nat.zero_sub _)) hused
    (hptr.symm ▸ hout)
  have hlen : (bs ++ [e]).length = bs.length + 1 := List.length_append
  have hend : (bytes ++ output ++ repeatBytes 0).length = bytes.length + output.length := by
    rw [repeatBytes, List.append_nil, List.length_append]
  constructor
  · rw [hlen, bands_succ, hd.value, hr.value]
  · rw [hlen, iterAfter_succ]
    exact hr.synced
  · rw [hlen, iterAfter_succ, hr.numRepeats, Nat.zero_sub]
  · rw [hlen, iterAfter_succ, hr.used0x7E, decide_eq_false (Nat.not_lt_zero _)]
  · rw [hlen, iterAfter_succ, hr.ptr, if_neg (Nat.not_lt_zero _), hend, hptr]
  · intro i hi
    rw [hlen, readsOfBands_succ, List.mem_append] at hi
    rw [hend]
    rcases hi with hi | hi
    · have hlt := hd.reads i hi
      rw [repeatBytes, List.append_nil] at hlt
      omega
    · exact hptr ▸ hr.reads i hi

theorem readsOfBand_repeat {it' : Iter} (hcontrol : readControl band it = (true, it')) :
    readsOfBand band it =
      if it.numRepeats = 0 ∧ band it.ptr = 0x7E then [it.ptr, it.ptr + 1] else [it.ptr] := by
  unfold readsOfBand
  rw [hcontrol]
  rfl

theorem length_repeatBytes (n : Nat) : (repeatBytes (n + 2)).length = 2 := rfl

/--
The control byte of `m` repeats, of which `k` have been read: the first one sets the count, and the
others count down.
-/
theorem readControl_repeat {k m : Nat} (hk : k < m)
    (hrep : it.numRepeats = if k = 0 then 0 else m - k) (hused : it.used0x7E = decide (k ≠ 0)) (hst : Stored band it.ptr (repeatBytes m)) :
    readControl band it =
        (true, { it with numRepeats := m - (k + 1), used0x7E := decide (m ≠ 1) }) ∧
      ∀ i ∈ readsOfBand band it, i < it.ptr + (repeatBytes m).length := by
  obtain ⟨ptr, prevSmallMode, prevY1, prevX0, prevX1, numRepeats, used0x7E⟩ := it
  dsimp only at hrep hused hst ⊢
  rcases Nat.eq_zero_or_pos k with rfl | hpos
  · obtain rfl : numRepeats = 0 := hrep
    obtain rfl : used0x7E = false := hused
    match m with
    | 1 =>
      have hbyte : band ptr = 0x7F := hst.1
      have hcontrol : readControl band ⟨ptr, prevSmallMode, prevY1, prevX0, prevX1, 0, false⟩ =
          (true, ⟨ptr, prevSmallMode, prevY1, prevX0, prevX1, 0, false⟩) := by
        rw [readControl, if_neg (Nat.lt_irrefl 0), if_pos hbyte]
      refine ⟨hcontrol, fun i hi => ?_⟩
      rw [readsOfBand_repeat hcontrol,
        if_neg fun h => absurd (hbyte.symm.trans h.2) (by decide)] at hi
      obtain rfl := List.mem_singleton.mp hi
      exact Nat.lt_succ_self _
    | n + 2 =>
      obtain ⟨hbyte, hcount, -⟩ := hst
      have hcontrol : readControl band ⟨ptr, prevSmallMode, prevY1, prevX0, prevX1, 0, false⟩ =
          (true, ⟨ptr, prevSmallMode, prevY1, prevX0, prevX1, n + 1, true⟩) := by
        rw [readControl, if_neg (Nat.lt_irrefl 0), if_neg (by rw [hbyte]; decide), if_pos hbyte,
          hcount]
      refine ⟨?_, fun i hi => ?_⟩
      · rw [hcontrol, decide_eq_true (show n + 2 ≠ 1 by omega)]
        rfl
      · rw [readsOfBand_repeat hcontrol, if_pos ⟨rfl, hbyte⟩] at hi
        rw [length_repeatBytes]
        simp only [List.mem_cons, List.not_mem_nil, or_false] at hi
        omega
  · have hk0 : k ≠ 0 := Nat.ne_of_gt hpos
    obtain rfl : numRepeats = m - k := hrep.trans (if_neg hk0)
    obtain rfl : used0x7E = true := hused.trans (decide_eq_true hk0)
    have hcontrol : readControl band ⟨ptr, prevSmallMode, prevY1, prevX0, prevX1, m - k, true⟩ =
        (true, ⟨ptr, prevSmallMode, prevY1, prevX0, prevX1, m - k - 1, true⟩) := by
      rw [readControl, if_pos (Nat.sub_pos_of_lt hk)]
    refine ⟨?_, fun i hi => ?_⟩
    · rw [hcontrol, decide_eq_true (show m ≠ 1 by omega), Nat.sub_sub]
    · rw [readsOfBand_repeat hcontrol, if_neg (by dsimp only; omega)] at hi
      obtain rfl := List.mem_singleton.mp hi
      match m with
      | 1 => omega
      | n + 2 =>
        rw [length_repeatBytes]
        omega

/-- The last band in small mode is repeated once more. -/
theorem Decodes.again {bytes : List Nat} {bs : List Band} {numBands : Nat} {c' : BuildContext}
    (h : Decodes c bytes bs) (hfits : Fits c points)
    (huse : c.useSmall numBands points = true) (hsame : c.smallOutput points = c.prevSmallOutput)
    (hc' : c'.count0x7F = c.count0x7F + 1)
    (hsync : ∀ it, Synced (c.after (c.toBand points) (c.smallOutput points)) it → Synced c' it) :
    Decodes c' bytes (bs ++ [c.toBand points]) := by
  rintro m band hm - hle hst
  rw [hc'] at hm
  have hplace : Synced c (iterAfter band bs.length createIterationContext) ∧
      bands band bs.length createIterationContext = bs ∧
      (iterAfter band bs.length createIterationContext).ptr = bytes.length ∧
      (iterAfter band bs.length createIterationContext).numRepeats =
        (if c.count0x7F = 0 then 0 else m - c.count0x7F) ∧
      (iterAfter band bs.length createIterationContext).used0x7E = decide (c.count0x7F ≠ 0) ∧
      ∀ i ∈ readsOfBands band bs.length createIterationContext,
        i < (bytes ++ repeatBytes m).length := by
    by_cases h0 : c.count0x7F = 0
    · have hd := h 0 band (by omega) (fun _ => rfl) (by decide)
        (stored_append.mpr ⟨(stored_append.mp hst).1, trivial⟩)
      have hptr := hd.ptr
      have hreads := hd.reads
      rw [repeatBytes, List.append_nil] at hptr hreads
      refine ⟨hd.synced, hd.value, by rw [hptr, ite_self], ?_, ?_, fun i hi => ?_⟩
      · rw [hd.numRepeats, if_pos h0, Nat.zero_sub]
      · rw [hd.used0x7E, h0]
        rfl
      · rw [List.length_append]
        exact Nat.lt_add_right _ (hreads i hi)
    · have hd := h m band (by omega) (fun h => absurd h h0) hle hst
      refine ⟨hd.synced, hd.value, ?_, ?_, ?_, hd.reads⟩
      · rw [hd.ptr, if_pos (by omega)]
      · rw [hd.numRepeats, if_neg h0]
      · rw [hd.used0x7E, decide_eq_true (show c.count0x7F < m by omega), decide_eq_true h0]
  obtain ⟨hsynced, hvalue, hptr, hrep, hused, hreads⟩ := hplace
  have hrest := (stored_append.mp hst).2
  rw [Nat.zero_add, ← hptr] at hrest
  obtain ⟨hcontrol, hreads'⟩ :=
    readControl_repeat (show c.count0x7F < m by omega) hrep hused hrest
  obtain ⟨hband, hafter, hnum, hflag, hnext⟩ := repeated hfits hsynced huse hsame hcontrol
  have hlen : (bs ++ [c.toBand points]).length = bs.length + 1 := List.length_append
  constructor
  · rw [hlen, bands_succ, hvalue, hband]
  · rw [hlen, iterAfter_succ]
    exact hsync _ hafter
  · rw [hlen, iterAfter_succ, hnum, hc']
  · rw [hlen, iterAfter_succ, hflag, hc', Bool.eq_iff_iff]
    simp only [Bool.and_eq_true, decide_eq_true_eq]
    omega
  · rw [hlen, iterAfter_succ, hnext, hc', hptr, List.length_append]
    by_cases hlast : c.count0x7F + 1 < m
    · rw [if_pos hlast, if_neg (by omega)]
    · rw [if_neg hlast, if_pos (by omega)]
      match m with
      | 1 => rfl
      | n + 2 => rfl
  · intro i hi
    rw [hlen, readsOfBands_succ, List.mem_append] at hi
    rcases hi with hi | hi
    · exact hreads i hi
    · have hlt := hreads' i hi
      rwa [hptr, ← List.length_append] at hlt

end Nolrem.Cd
