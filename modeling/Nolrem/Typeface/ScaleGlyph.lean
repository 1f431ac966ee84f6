import Mathlib.Data.List.Range
import Mathlib.Tactic.Ring
import Nolrem.Lib.Reads

/-!
# Scaling a glyph

`ScaleGlyphData` of `kernel/CLIPDRAW/font/typeface.c`. A bitmap is made of chunks of 8 columns, each
with one byte for each row. The sizes are so small that no `int` of the code overflows, so they are
natural numbers here.
-/

namespace Nolrem.Typeface

open Nolrem.Lib

/-! ## The code -/

/-- A quotient and its remainder: `x_sx` and `x_rem`, or `sy` and `rem` -/
structure Sample where
  pos : Nat
  rem : Nat
deriving DecidableEq, Repr

/-- What the loops add: `x_q`, `x_r` and `x_den`, or `y_q`, `y_r` and `y_den` -/
structure Stride where
  q : Nat
  r : Nat
  den : Nat
deriving DecidableEq, Repr

/-- The divisions before the loops -/
def strideOf (old new : Nat) : Stride where
  q := (old <<< 1) / (new <<< 1)
  r := (old <<< 1) % (new <<< 1)
  den := new <<< 1

/-- Where the loops start -/
def startOf (old new : Nat) : Sample := ⟨old / (new <<< 1), old % (new <<< 1)⟩

/-- The end of a round -/
def Sample.advance (t : Stride) (s : Sample) : Sample :=
  let pos := s.pos + t.q
  let rem := s.rem + t.r
  if rem ≥ t.den then ⟨pos + 1, rem - t.den⟩ else ⟨pos, rem⟩

/-- `xo[k]` and `xs[k]` -/
structure Column where
  offset : Nat
  shift : Nat
deriving DecidableEq, Repr

/-- The loop over the columns of a chunk -/
def columns (oldH : Nat) (t : Stride) : Nat → Sample → List Column × Sample
  | 0, s => ([], s)
  | n + 1, s =>
    let rest := columns oldH t n (s.advance t)
    (⟨(s.pos >>> 3) * oldH, 7 - (s.pos &&& 7)⟩ :: rest.1, rest.2)

/-- The bits of a row of a chunk, the first column first -/
def gather (glyph : Nat → Nat) (sy : Nat) (cols : List Column) : Reads Nat :=
  cols.foldlM (fun b col => do
    let byte ← byteAt glyph (col.offset + sy)
    pure (b <<< 1 ||| (byte >>> col.shift &&& 1))) 0

/-- `b` for the row `sy`: it stays when the row is `prev_sy`, which starts as the row -1. -/
def rowBits (glyph : Nat → Nat) (cols : List Column) (n sy : Nat) (prev : Option Nat) (b : Nat) :
    Reads Nat :=
  if some sy ≠ prev then do
    let b ← gather glyph sy cols
    pure (b <<< (8 - n))
  else pure b

/-- The loop over the rows of a chunk -/
def rows (glyph : Nat → Nat) (cols : List Column) (n : Nat) (t : Stride) :
    Nat → Sample → Option Nat → Nat → Reads (List Nat)
  | 0, _, _, _ => pure []
  | dy + 1, s, prev, b => do
    let b ← rowBits glyph cols n s.pos prev b
    let rest ← rows glyph cols n t dy (s.advance t) (some s.pos) b
    pure (b % 256 :: rest)

/-- The loop over the chunks from `c` on -/
def chunks (glyph : Nat → Nat) (oldW oldH newW newH : Nat) : Nat → Nat → Sample → Reads (List Nat)
  | 0, _, _ => pure []
  | left + 1, c, s => do
    let n := min 8 (newW - c <<< 3)
    let cols := columns oldH (strideOf oldW newW) n s
    let out ← rows glyph cols.1 n (strideOf oldH newH) newH (startOf oldH newH) none 0
    let rest ← chunks glyph oldW oldH newW newH left (c + 1) cols.2
    pure (out ++ rest)

/-- `ScaleGlyphData`: what it writes to the new glyph, or `none` for `NULL`. `heap` says whether
`AllocHeap` succeeds. -/
def scaleGlyphData (heap : Bool) (glyph : Option (Nat → Nat)) (oldW oldH newW newH : Int) :
    Reads (Option (List Nat)) :=
  if newW ≤ 0 ∨ newH ≤ 0 then pure none
  else
    let newChunks := (newW.toNat + 7) >>> 3
    if !heap then pure none
    else
      match glyph with
      | none => pure (some (List.replicate (newChunks * newH.toNat) 0))
      | some glyph =>
        if oldW ≤ 0 ∨ oldH ≤ 0 then pure (some (List.replicate (newChunks * newH.toNat) 0))
        else do
          let out ← chunks glyph oldW.toNat oldH.toNat newW.toNat newH.toNat newChunks 0
            (startOf oldW.toNat newW.toNat)
          pure (some out)

/-! ## Bitmaps -/

/-- The bit at column `x` and row `y` of a bitmap with `h` rows -/
def glyphBit (bytes : Nat → Nat) (h x y : Nat) : Bool := (bytes (x / 8 * h + y)).testBit (7 - x % 8)

/-- The old column or row whose centre is nearest to that of the new one -/
def nearest (old new x : Nat) : Nat := (2 * x + 1) * old / (2 * new)

/-- What the loops hold at `x` -/
def sampleAt (old new x : Nat) : Sample := ⟨nearest old new x, (2 * x + 1) * old % (2 * new)⟩

section
variable {old new : Nat}

theorem startOf_eq (old new : Nat) : startOf old new = sampleAt old new 0 := by
  simp [startOf, sampleAt, nearest, Nat.shiftLeft_eq, Nat.mul_comm]

/-- A quotient and its remainder after adding to the dividend -/
theorem advance_div {d : Nat} (hd : 0 < d) (a b : Nat) :
    Sample.advance ⟨b / d, b % d, d⟩ ⟨a / d, a % d⟩ = ⟨(a + b) / d, (a + b) % d⟩ := by
  have ha := Nat.mod_lt a hd
  have hb := Nat.mod_lt b hd
  rw [Nat.add_div hd, Nat.add_mod]
  generalize a % d = r at *
  generalize b % d = r' at *
  simp only [Sample.advance]
  split
  next hge => rw [Nat.mod_eq_sub_mod hge, Nat.mod_eq_of_lt (a := r + r' - d) (by omega)]
  next hlt => rw [Nat.mod_eq_of_lt (a := r + r') (by omega), Nat.add_zero]

/-- A round goes on to the next column or row. -/
theorem advance_sampleAt (hnew : 0 < new) (x : Nat) :
    (sampleAt old new x).advance (strideOf old new) = sampleAt old new (x + 1) := by
  have hnext : (2 * (x + 1) + 1) * old = (2 * x + 1) * old + 2 * old := by ring
  have hstride : strideOf old new =
      ⟨2 * old / (2 * new), 2 * old % (2 * new), 2 * new⟩ := by
    simp only [strideOf, Nat.shiftLeft_eq, pow_one, Nat.mul_comm]
  rw [hstride, sampleAt, nearest, advance_div (by omega), sampleAt, nearest, hnext]

/-- Every new column has an old one. -/
theorem nearest_lt {x : Nat} (hold : 0 < old) (hx : x < new) : nearest old new x < old := by
  rw [nearest, Nat.div_lt_iff_lt_mul (by omega), Nat.mul_comm old]
  exact Nat.mul_lt_mul_of_pos_right (by omega) hold

end

/-- In the sizes of a glyph no value that the loops compute leaves `int`. -/
theorem sampleAt_fits {old new x : Nat} (hold : 0 < old ∧ old ≤ 2 ^ 15) (hnew : new ≤ 2 ^ 15)
    (hx : x < new) :
    (sampleAt old new x).pos + (strideOf old new).q + 1 < 2 ^ 31 ∧
      (sampleAt old new x).rem + (strideOf old new).r < 2 ^ 31 := by
  have hpos : nearest old new x < old := nearest_lt hold.1 hx
  have hq : 2 * old / (2 * new) ≤ 2 * old := Nat.div_le_self ..
  have hr : 2 * old % (2 * new) ≤ 2 * old := Nat.mod_le ..
  have hrem : (2 * x + 1) * old % (2 * new) < 2 * new := Nat.mod_lt _ (by omega)
  simp only [sampleAt, strideOf, Nat.shiftLeft_eq, pow_one, Nat.mul_comm _ 2]
  omega

/-! ## Columns and bits -/

theorem columns_sampleAt (oldH : Nat) {oldW newW : Nat} (hnew : 0 < newW) (n x : Nat) :
    columns oldH (strideOf oldW newW) n (sampleAt oldW newW x) =
      ((List.range n).map fun k =>
          ⟨nearest oldW newW (x + k) / 8 * oldH, 7 - nearest oldW newW (x + k) % 8⟩,
        sampleAt oldW newW (x + n)) := by
  induction n generalizing x with
  | zero => rfl
  | succ n ih =>
    rw [columns, advance_sampleAt hnew, ih, List.range_succ_eq_map]
    simp only [List.map_cons, List.map_map, Prod.mk.injEq, List.cons.injEq]
    refine ⟨⟨?_, ?_⟩, by congr 1; omega⟩
    · rw [sampleAt, Nat.shiftRight_eq_div_pow, show (7 : Nat) = 2 ^ 3 - 1 from rfl,
        Nat.and_two_pow_sub_one_eq_mod]
      rfl
    · refine List.map_congr_left fun k _ => ?_
      simp only [Function.comp_apply]
      rw [show x + 1 + k = x + (k + 1) by omega]

theorem testBit_shiftIn (b v k j : Nat) :
    (b <<< 1 ||| (v >>> k &&& 1)).testBit j =
      if j = 0 then v.testBit k else b.testBit (j - 1) := by
  rw [Nat.testBit_or, Nat.testBit_shiftLeft, Nat.testBit_and, Nat.testBit_shiftRight]
  cases j with
  | zero => simp
  | succ j => simp [Nat.testBit_succ]

/-- The byte of a row: the bits of its columns from the highest one on, and zeros. -/
theorem testBit_gather (glyph : Nat → Nat) (sy : Nat) (col : Nat → Column) (n j : Nat) :
    (gather glyph sy ((List.range n).map col)).value.testBit j =
      (decide (j < n) &&
        (glyph ((col (n - 1 - j)).offset + sy)).testBit (col (n - 1 - j)).shift) := by
  rw [gather, Reads.value_foldlM]
  simp only [Reads.value_bind, value_byteAt, Reads.value_pure]
  induction n generalizing j with
  | zero => simp
  | succ n ih =>
    rw [List.range_succ, List.map_append, List.foldl_append, List.map_singleton,
      List.foldl_cons, List.foldl_nil, testBit_shiftIn]
    split
    next hj => simp [hj]
    next hj =>
      rw [ih, show n - 1 - (j - 1) = n + 1 - 1 - j by omega]
      congr 1
      rw [decide_eq_decide]
      omega

theorem inside_gather {glyph : Nat → Nat} {sy size : Nat} {cols : List Column}
    (h : ∀ col ∈ cols, col.offset + sy < size) : (gather glyph sy cols).Inside size := by
  refine Reads.inside_foldlM (fun _ => True) (fun b col hcol _ => ⟨?_, trivial⟩) trivial
  rw [Reads.inside_bind, inside_byteAt]
  exact ⟨h col hcol, Reads.inside_pure _⟩

/-! ## Rows -/

/-- The byte of a chunk at a row of the old glyph -/
def chunkByte (glyph : Nat → Nat) (cols : List Column) (n sy : Nat) : Nat :=
  (gather glyph sy cols).value <<< (8 - n)

theorem rowBits_eq {glyph : Nat → Nat} {cols : List Column} {n : Nat} (sy : Nat) {prev : Option Nat}
    {b : Nat} (hprev : ∀ sy, prev = some sy → b = chunkByte glyph cols n sy) :
    (rowBits glyph cols n sy prev b).value = chunkByte glyph cols n sy := by
  unfold rowBits
  split
  next => rfl
  next heq => exact hprev _ (not_not.mp heq).symm

/-- A row that repeats the one before it has its byte, so each row has that of its old row. -/
theorem rows_eq (glyph : Nat → Nat) (cols : List Column) (n : Nat) {oldH newH : Nat}
    (hnew : 0 < newH) (h y : Nat) (prev : Option Nat) (b : Nat)
    (hprev : ∀ sy, prev = some sy → b = chunkByte glyph cols n sy) :
    (rows glyph cols n (strideOf oldH newH) h (sampleAt oldH newH y) prev b).value =
      (List.range h).map fun dy => chunkByte glyph cols n (nearest oldH newH (y + dy)) % 256 := by
  induction h generalizing y prev b with
  | zero => rfl
  | succ h ih =>
    rw [rows, Reads.value_bind, Reads.value_bind, Reads.value_pure, advance_sampleAt hnew,
      rowBits_eq _ hprev, List.range_succ_eq_map, List.map_cons, List.map_map,
      ih (y + 1) _ _ fun sy hsy => by rw [← Option.some.inj hsy]]
    refine congrArg _ (List.map_congr_left fun dy _ => ?_)
    rw [Function.comp_apply, show y + 1 + dy = y + dy.succ by omega]

theorem inside_rows {glyph : Nat → Nat} {cols : List Column} {n size : Nat} {oldH newH : Nat}
    (hold : 0 < oldH) (hnew : 0 < newH)
    (hsize : ∀ col ∈ cols, ∀ sy < oldH, col.offset + sy < size) (h y : Nat) (hy : y + h ≤ newH)
    (prev : Option Nat) (b : Nat) :
    (rows glyph cols n (strideOf oldH newH) h (sampleAt oldH newH y) prev b).Inside size := by
  induction h generalizing y prev b with
  | zero => exact Reads.inside_pure _
  | succ h ih =>
    rw [rows, Reads.inside_bind, Reads.inside_bind, advance_sampleAt hnew]
    refine ⟨?_, ih (y + 1) (by omega) _ _, Reads.inside_pure _⟩
    rw [rowBits, Reads.inside_ite]
    refine ⟨fun _ => ?_, fun _ => Reads.inside_pure _⟩
    rw [Reads.inside_bind]
    have hlt : nearest oldH newH y < oldH := nearest_lt hold (by omega)
    exact ⟨inside_gather fun col hcol => hsize col hcol _ hlt, Reads.inside_pure _⟩

/-! ## Chunks -/

/-- The column of the old glyph that a new column shows -/
def columnOf (oldW oldH newW x : Nat) : Column :=
  ⟨nearest oldW newW x / 8 * oldH, 7 - nearest oldW newW x % 8⟩

/-- How many columns the chunk `c` has -/
def chunkWidth (newW c : Nat) : Nat := min 8 (newW - 8 * c)

/-- The columns of the chunk `c` -/
def chunkColumns (oldW oldH newW c : Nat) : List Column :=
  (List.range (chunkWidth newW c)).map fun k => columnOf oldW oldH newW (8 * c + k)

section
variable {glyph : Nat → Nat} {oldW oldH newW newH : Nat}

/-- One chunk, and the chunks behind it -/
theorem chunks_succ (hw : 0 < newW) (left c : Nat) :
    chunks glyph oldW oldH newW newH (left + 1) c (sampleAt oldW newW (8 * c)) = (do
      let out ← rows glyph (chunkColumns oldW oldH newW c) (chunkWidth newW c) (strideOf oldH newH)
        newH (sampleAt oldH newH 0) none 0
      let rest ← chunks glyph oldW oldH newW newH left (c + 1)
        (sampleAt oldW newW (8 * c + chunkWidth newW c))
      pure (out ++ rest)) := by
  rw [chunks]
  simp only [Nat.shiftLeft_eq, startOf_eq, columns_sampleAt oldH hw, Nat.mul_comm c]
  rfl

/-- All chunks before the last one have 8 columns. -/
theorem chunkWidth_of_lt {c : Nat} (h : c + 1 < (newW + 7) / 8) : chunkWidth newW c = 8 := by
  unfold chunkWidth
  omega

theorem chunks_spec (hw : 0 < newW) (hh : 0 < newH) (left c : Nat) (s : Sample)
    (hleft : c + left = (newW + 7) / 8) (hs : 0 < left → s = sampleAt oldW newW (8 * c)) :
    (chunks glyph oldW oldH newW newH left c s).value.length = left * newH ∧
      ∀ i dy, i < left → dy < newH →
        (chunks glyph oldW oldH newW newH left c s).value[i * newH + dy]? =
          some (chunkByte glyph (chunkColumns oldW oldH newW (c + i)) (chunkWidth newW (c + i))
            (nearest oldH newH dy) % 256) := by
  induction left generalizing c s with
  | zero => exact ⟨(Nat.zero_mul _).symm, fun i dy hi => absurd hi (Nat.not_lt_zero i)⟩
  | succ left ih =>
    obtain rfl := hs (Nat.succ_pos left)
    have hnext : 0 < left → sampleAt oldW newW (8 * c + chunkWidth newW c) =
        sampleAt oldW newW (8 * (c + 1)) := by
      intro hpos
      rw [chunkWidth_of_lt (by omega), Nat.mul_add]
    obtain ⟨hlen, hget⟩ := ih (c + 1) _ (by omega) hnext
    rw [chunks_succ hw]
    simp only [Reads.value_bind, Reads.value_pure]
    rw [rows_eq glyph _ _ hh newH 0 none 0 nofun]
    refine ⟨?_, fun i dy hi hdy => ?_⟩
    · rw [List.length_append, List.length_map, List.length_range, hlen]
      ring
    · cases i with
      | zero =>
        rw [Nat.zero_mul, Nat.zero_add, List.getElem?_append_left (by simpa using hdy),
          List.getElem?_map, List.getElem?_range hdy, Option.map_some, Nat.zero_add, Nat.add_zero]
      | succ i =>
        have hlen' : ((List.range newH).map fun dy => chunkByte glyph
            (chunkColumns oldW oldH newW c) (chunkWidth newW c)
              (nearest oldH newH (0 + dy)) % 256).length = newH := by
          rw [List.length_map, List.length_range]
        have hidx : (i + 1) * newH + dy - newH = i * newH + dy := by
          rw [Nat.add_mul, Nat.one_mul]
          omega
        rw [List.getElem?_append_right (by rw [hlen', Nat.add_mul]; omega), hlen', hidx,
          hget i dy (by omega) hdy, show c + 1 + i = c + (i + 1) by omega]

theorem inside_chunks (hw : 0 < newW) (hh : 0 < newH) (holdW : 0 < oldW) (holdH : 0 < oldH)
    (left c : Nat) (s : Sample) (hleft : c + left = (newW + 7) / 8)
    (hs : 0 < left → s = sampleAt oldW newW (8 * c)) :
    (chunks glyph oldW oldH newW newH left c s).Inside ((oldW + 7) / 8 * oldH) := by
  induction left generalizing c s with
  | zero => exact Reads.inside_pure _
  | succ left ih =>
    obtain rfl := hs (Nat.succ_pos left)
    have hnext : 0 < left → sampleAt oldW newW (8 * c + chunkWidth newW c) =
        sampleAt oldW newW (8 * (c + 1)) := by
      intro hpos
      rw [chunkWidth_of_lt (by omega), Nat.mul_add]
    rw [chunks_succ hw, Reads.inside_bind, Reads.inside_bind]
    refine ⟨?_, ih (c + 1) _ (by omega) hnext, Reads.inside_pure _⟩
    refine inside_rows holdH hh (fun col hcol sy hsy => ?_) newH 0 (by omega) none 0
    obtain ⟨k, hk, rfl⟩ := List.mem_map.mp hcol
    have hk := List.mem_range.mp hk
    rw [chunkWidth] at hk
    have hlt : nearest oldW newW (8 * c + k) < oldW := nearest_lt holdW (by omega)
    -- the chunk of an old column, and a row of it
    calc (columnOf oldW oldH newW (8 * c + k)).offset + sy
        < nearest oldW newW (8 * c + k) / 8 * oldH + oldH := Nat.add_lt_add_left hsy _
      _ = (nearest oldW newW (8 * c + k) / 8 + 1) * oldH := by ring
      _ ≤ (oldW + 7) / 8 * oldH := Nat.mul_le_mul_right _ (by omega)

/-- A bit of a byte of a chunk: that of its column, or zero behind the last column. -/
theorem testBit_chunkByte {c k sy : Nat} (hk : k < 8) :
    (chunkByte glyph (chunkColumns oldW oldH newW c) (chunkWidth newW c) sy % 256).testBit (7 - k) =
      (decide (8 * c + k < newW) && glyphBit glyph oldH (nearest oldW newW (8 * c + k)) sy) := by
  have hn : chunkWidth newW c ≤ 8 := Nat.min_le_left ..
  have hin : 8 * c + k < newW ↔ k < chunkWidth newW c := by
    unfold chunkWidth
    omega
  rw [show (256 : Nat) = 2 ^ 8 from rfl, Nat.testBit_mod_two_pow, chunkByte, Nat.testBit_shiftLeft,
    chunkColumns, testBit_gather, decide_eq_true (show 7 - k < 8 by omega), Bool.true_and]
  by_cases hcol : k < chunkWidth newW c
  · rw [decide_eq_true (show 7 - k ≥ 8 - chunkWidth newW c by omega), Bool.true_and,
      decide_eq_true (by omega), decide_eq_true (hin.mpr hcol),
      show chunkWidth newW c - 1 - (7 - k - (8 - chunkWidth newW c)) = k by omega]
    rfl
  · rw [decide_eq_false (show ¬ 7 - k ≥ 8 - chunkWidth newW c by omega),
      decide_eq_false (mt hin.mp hcol), Bool.false_and, Bool.false_and]

end

/-- Each bit of the new glyph is the bit of the old one at the nearest centre, the bits behind the
last column are zero, and what is read and written are the bytes of the two glyphs. -/
theorem scaleGlyphData_nearest (glyph : Nat → Nat) (oldW oldH newW newH : Nat)
    (holdW : 1 ≤ oldW ∧ oldW ≤ 2 ^ 15) (holdH : 1 ≤ oldH ∧ oldH ≤ 2 ^ 15)
    (hnewW : 1 ≤ newW ∧ newW ≤ 2 ^ 15) (hnewH : 1 ≤ newH ∧ newH ≤ 2 ^ 15) :
    ∃ out, (scaleGlyphData true (some glyph) oldW oldH newW newH).value = some out ∧
      out.length = (newW + 7) / 8 * newH ∧
      (∀ x y, x < newW → y < newH → glyphBit (fun i => out.getD i 0) newH x y =
        glyphBit glyph oldH ((2 * x + 1) * oldW / (2 * newW)) ((2 * y + 1) * oldH / (2 * newH))) ∧
      (∀ x y, newW ≤ x → x < (newW + 7) / 8 * 8 → y < newH →
        glyphBit (fun i => out.getD i 0) newH x y = false) ∧
      (scaleGlyphData true (some glyph) oldW oldH newW newH).Inside ((oldW + 7) / 8 * oldH) := by
  have hrun : scaleGlyphData true (some glyph) oldW oldH newW newH = (do
      let out ← chunks glyph oldW oldH newW newH ((newW + 7) / 8) 0 (sampleAt oldW newW (8 * 0))
      pure (some out)) := by
    unfold scaleGlyphData
    rw [if_neg (by omega), Nat.shiftRight_eq_div_pow]
    simp only [Bool.not_true, Bool.false_eq_true, if_false, startOf_eq, Int.toNat_natCast]
    rw [if_neg (by omega)]
  obtain ⟨hlen, hget⟩ := @chunks_spec glyph oldW oldH newW newH hnewW.1 hnewH.1 ((newW + 7) / 8) 0 _
    (Nat.zero_add _) fun _ => rfl
  have hbit (x y : Nat) (hx : x < (newW + 7) / 8 * 8) (hy : y < newH) :
      glyphBit (fun i => (chunks glyph oldW oldH newW newH ((newW + 7) / 8) 0
        (sampleAt oldW newW (8 * 0))).value.getD i 0) newH x y =
          (decide (x < newW) &&
            glyphBit glyph oldH (nearest oldW newW x) (nearest oldH newH y)) := by
    have hbyte := hget (x / 8) y (by omega) hy
    rw [Nat.zero_add] at hbyte
    rw [glyphBit, List.getD_eq_getElem?_getD, hbyte, Option.getD_some,
      testBit_chunkByte (Nat.mod_lt x (by omega)), Nat.div_add_mod]
  rw [hrun]
  refine ⟨_, rfl, hlen, fun x y hx hy => ?_, fun x y hx hx' hy => ?_, ?_⟩
  · rw [hbit x y (by omega) hy, decide_eq_true hx, Bool.true_and]
    rfl
  · rw [hbit x y hx' hy, decide_eq_false (by omega), Bool.false_and]
  · rw [Reads.inside_bind]
    exact ⟨inside_chunks hnewW.1 hnewH.1 holdW.1 holdH.1 _ 0 _ (Nat.zero_add _) fun _ => rfl,
      Reads.inside_pure _⟩

/-- The second of two columns, in a glyph of twice the size -/
theorem scaleGlyphData_nearest_double :
    ∃ out, (scaleGlyphData true (some fun _ => 64) 2 1 4 2).value = some out ∧ out.length = 2 ∧
      glyphBit (fun i => out.getD i 0) 2 2 1 = true := by
  obtain ⟨out, hval, hlen, hbits, -, -⟩ := scaleGlyphData_nearest (fun _ => 64) 2 1 4 2 (by decide)
    (by decide) (by decide) (by decide)
  exact ⟨out, hval, hlen, (hbits 2 1 (by decide) (by decide)).trans (by decide)⟩

end Nolrem.Typeface
