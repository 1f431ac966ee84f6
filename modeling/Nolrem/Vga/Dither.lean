import Mathlib.Algebra.BigOperators.Fin
import Mathlib.Algebra.Order.BigOperators.Group.List
import Mathlib.Algebra.Order.Ring.Int
import Mathlib.Logic.Function.Basic
import Mathlib.Tactic.Common
import Mathlib.Tactic.Ring

/-!
# The dither of a colour

`GetDither` of `kernel/CLIPDRAW/driver/vga16/superdither.c`. It writes into a tile of 8 by 8 pixels
that may hold anything before; the last theorem says that nothing of it is left.
-/

namespace Nolrem.Vga

/-! ## The code -/

def getRed (argb : Nat) : Nat := argb / 65536 % 256

def getGreen (argb : Nat) : Nat := argb / 256 % 256

def getBlue (argb : Nat) : Nat := argb % 256

/-- `vga_palette` -/
def vgaPalette : List (Nat × Nat × Nat) :=
  [(0, 0, 0), (128, 0, 0), (0, 128, 0), (128, 128, 0), (0, 0, 128), (128, 0, 128), (0, 128, 128),
    (192, 192, 192), (128, 128, 128), (255, 0, 0), (0, 255, 0), (255, 255, 0), (0, 0, 255),
    (255, 0, 255), (0, 255, 255), (255, 255, 255)]

/-- The first three cases of `AddColour`: the colour of the palette, if it is one. -/
def paletteIndex (colour : Nat) : Option Nat :=
  let r := getRed colour
  let g := getGreen colour
  let b := getBlue colour
  if colour = 0x808080 then some 8
  else if (r = 0x80 ∨ r = 0) ∧ (g = 0x80 ∨ g = 0) ∧ (b = 0x80 ∨ b = 0) then
    some ((if b = 0x80 then 4 else 0) + (if g = 0x80 then 2 else 0) + if r = 0x80 then 1 else 0)
  else if (r = 0xFF ∨ r = 0) ∧ (g = 0xFF ∨ g = 0) ∧ (b = 0xFF ∨ b = 0) then
    some (8 + (if b = 0xFF then 4 else 0) + (if g = 0xFF then 2 else 0) +
      if r = 0xFF then 1 else 0)
  else none

/-- `AddColour` with `recursive` set. -/
def addPaletteColour (colour : Nat) (weight : Int) (weights : Nat → Int) : Nat → Int :=
  match paletteIndex colour with
  | some i => Function.update weights i (weights i + weight)
  | none => weights

/-- The `lighter` or `darker` colour of `AddColour`, with `v` in the place of each `0x80`. -/
def shade (v colour : Nat) : Nat :=
  (if getRed colour = 0x80 then v else getRed colour) * 65536 +
    (if getGreen colour = 0x80 then v else getGreen colour) * 256 +
      if getBlue colour = 0x80 then v else getBlue colour

/-- `AddColour` -/
def addColour (colour : Nat) (weight : Int) (weights : Nat → Int) : Nat → Int :=
  match paletteIndex colour with
  | some _ => addPaletteColour colour weight weights
  | none =>
    addPaletteColour (shade 0xFF colour) (weight.tdiv 4)
      (addPaletteColour (shade 0 colour) (weight - weight.tdiv 4) weights)

/-- `CorrectGamma128` -/
def correctGamma128 (x : Nat) : Nat := x * x / 128

/-- `CorrectGamma64` -/
def correctGamma64 (x : Nat) : Nat := x * x / 64

/-- `GetColourForChannel`: the two values around a channel, and the weight of the second. -/
def getColourForChannel (channel : Nat) : Nat × Nat × Nat :=
  if channel = 0 ∨ channel = 0xFF ∨ channel = 0x80 then (channel, channel, 0)
  else if channel < 0x80 then (0, 0x80, correctGamma128 (channel + 1))
  else (0x80, 0xFF, correctGamma128 (channel - 0x80 + 1))

/-- The darkest colour of the palette first. -/
def vgaLumOrder : List Nat := [0, 4, 12, 1, 5, 2, 9, 6, 13, 3, 8, 10, 14, 7, 11, 15]

/-- The places of the tile in the order in which they are filled. -/
def bayerInverse : List Nat :=
  [0, 36, 32, 4, 18, 54, 50, 22, 16, 52, 48, 20, 2, 38, 34, 6,
    9, 45, 41, 13, 27, 63, 59, 31, 25, 61, 57, 29, 11, 47, 43, 15,
    8, 44, 40, 12, 26, 62, 58, 30, 24, 60, 56, 28, 10, 46, 42, 14,
    1, 37, 33, 5, 19, 55, 51, 23, 17, 53, 49, 21, 3, 39, 35, 7]

/-- How often `while (weight--)` goes round; a negative weight does not stop it before 64. -/
def rounds (weight : Int) : Nat := if weight < 0 then 64 else weight.toNat

/-- The colours one after another, at the places of the list. -/
def writeTile : List Nat → List Nat → (Nat → Nat) → Nat → Nat
  | c :: cs, p :: ps, out => writeTile cs ps (Function.update out p c)
  | _, _, out => out

/-- `FillDitherUsingWeights` -/
def fillDitherUsingWeights (weights : Nat → Int) (out : Nat → Nat) : Nat → Nat :=
  writeTile (vgaLumOrder.flatMap fun c => List.replicate (rounds (weights c)) c) bayerInverse out

/-- `memset(outbuffer, c, 64)` -/
def memsetTile (c : Nat) (out : Nat → Nat) : Nat → Nat := fun p => if p < 64 then c else out p

/-- The weights of two colours. -/
def twoWeights (i : Nat) (wi : Int) (j : Nat) (wj : Int) : Nat → Int :=
  fun c => if c = i then wi else if c = j then wj else 0

/-- `GetGreyDither` -/
def getGreyDither (channel : Nat) (out : Nat → Nat) : Nat → Nat :=
  if channel = 0xFF then memsetTile 15 out
  else if channel = 0 then memsetTile 0 out
  else if channel = 0x80 then memsetTile 8 out
  else if channel = 0xC0 then memsetTile 7 out
  else if channel > 0xC0 then
    fillDitherUsingWeights (twoWeights 7 (0x40 - correctGamma64 (channel - 0xC0)) 15
      (correctGamma64 (channel - 0xC0 + 1))) out
  else if channel > 0x80 then
    fillDitherUsingWeights (twoWeights 7 (correctGamma64 (channel - 0x80)) 8
      (0x40 - correctGamma64 (channel - 0x80))) out
  else
    fillDitherUsingWeights (twoWeights 8 (correctGamma64 (channel / 2)) 0
      (0x40 - correctGamma64 (channel / 2))) out

/-- The index of the largest of the 16 remainders, the first one of several. -/
def largest (rem : Nat → Int) : Nat :=
  (List.range 15).foldl (fun best i => if rem (i + 1) > rem best then i + 1 else best) 0

/-- One pixel more for the colour with the largest remainder. -/
def handOut (w : (Nat → Int) × (Nat → Int)) : (Nat → Int) × (Nat → Int) :=
  (Function.update w.1 (largest w.2) (w.1 (largest w.2) + 1), Function.update w.2 (largest w.2) (-1))

/-- The sum of the 16 weights. -/
def total (weights : Nat → Int) : Int := ∑ i ∈ Finset.range 16, weights i

/-- `NormaliseWeights` -/
def normaliseWeights (weights : Nat → Int) : Nat → Int :=
  let floors : Nat → Int := fun i => weights i / 32768
  let rem : Nat → Int := fun i => weights i % 32768
  (handOut^[(64 - total floors).toNat] (floors, rem)).1

/-- The weights before they are normalised, of the eight colours around `col`. -/
def vgaWeights (col : Nat) : Nat → Int :=
  let (ra, rb, rw) := getColourForChannel (getRed col)
  let (ga, gb, gw) := getColourForChannel (getGreen col)
  let (ba, bb, bw) := getColourForChannel (getBlue col)
  (List.range 8).foldl
    (fun weights (i : Nat) =>
      let r := i % 2 = 1
      let g := i / 2 % 2 = 1
      let b := i / 4 % 2 = 1
      let colour := 0xFF000000 + (if r then rb else ra) * 65536 + (if g then gb else ga) * 256 +
        if b then bb else ba
      let weight : Nat := (if r then rw else 128 - rw) * (if g then gw else 128 - gw) *
        if b then bw else 128 - bw
      addColour colour weight weights)
    fun _ => 0

/-- `GetDither` -/
def getDither (col : Nat) (out : Nat → Nat) : Nat → Nat :=
  if getRed col = getGreen col ∧ getGreen col = getBlue col then getGreyDither (getRed col) out
  else fillDitherUsingWeights (normaliseWeights (vgaWeights col)) out

/-! ## The tile is filled -/

/-- A place that is written, or where the tiles agree before, holds the same afterwards. -/
theorem writeTile_congr {cs ps : List Nat} {out out' : Nat → Nat} {p : Nat}
    (h : out p = out' p ∨ p ∈ ps.take cs.length) :
    writeTile cs ps out p = writeTile cs ps out' p := by
  induction cs generalizing ps out out' with
  | nil =>
    rcases h with h | h
    · simpa [writeTile] using h
    · simp at h
  | cons c cs ih =>
    cases ps with
    | nil =>
      rcases h with h | h
      · simpa [writeTile] using h
      · simp at h
    | cons q ps =>
      rw [writeTile, writeTile]
      refine ih ?_
      by_cases hp : p = q
      · subst hp
        exact Or.inl (by rw [Function.update_self, Function.update_self])
      · rw [Function.update_of_ne hp, Function.update_of_ne hp]
        refine h.imp_right fun hmem => ?_
        rw [List.length_cons, List.take_succ_cons, List.mem_cons] at hmem
        exact hmem.resolve_left hp

theorem le_rounds (weight : Int) : weight ≤ rounds weight := by
  unfold rounds
  split_ifs <;> omega

/-- There are enough colours when the weights sum up to 64. -/
theorem fillDither_congr {weights : Nat → Int} (hw : 64 ≤ total weights) (out out' : Nat → Nat)
    {p : Nat} (hp : p < 64) :
    fillDitherUsingWeights weights out p = fillDitherUsingWeights weights out' p := by
  refine writeTile_congr (Or.inr ?_)
  have hlen : 64 ≤ (vgaLumOrder.flatMap fun c => List.replicate (rounds (weights c)) c).length := by
    have hle := fun c => le_rounds (weights c)
    have h0 := hle 0; have h1 := hle 1; have h2 := hle 2; have h3 := hle 3
    have h4 := hle 4; have h5 := hle 5; have h6 := hle 6; have h7 := hle 7
    have h8 := hle 8; have h9 := hle 9; have h10 := hle 10; have h11 := hle 11
    have h12 := hle 12; have h13 := hle 13; have h14 := hle 14; have h15 := hle 15
    simp only [total, Finset.sum_range_succ, Finset.sum_range_zero] at hw
    simp only [vgaLumOrder, List.flatMap_cons, List.flatMap_nil, List.length_append,
      List.length_replicate, List.length_nil]
    omega
  rw [List.take_of_length_le (show bayerInverse.length ≤ _ from hlen)]
  have hall : ∀ q ∈ List.range 64, q ∈ bayerInverse := by decide
  exact hall p (List.mem_range.mpr hp)

theorem largest_lt (rem : Nat → Int) : largest rem < 16 := by
  have hinv : ∀ (l : List Nat) (best : Nat), best < 16 → (∀ i ∈ l, i < 15) →
      l.foldl (fun best i => if rem (i + 1) > rem best then i + 1 else best) best < 16 := by
    intro l
    induction l with
    | nil => exact fun _ hb _ => hb
    | cons i l ih =>
      intro best hb hl
      have hi := hl i List.mem_cons_self
      refine ih _ ?_ fun j hj => hl j (List.mem_cons_of_mem i hj)
      dsimp only
      split_ifs <;> omega
  exact hinv (List.range 15) 0 (by decide) fun i hi => List.mem_range.mp hi

theorem total_handOut (w : (Nat → Int) × (Nat → Int)) : total (handOut w).1 = total w.1 + 1 := by
  have hmem : largest w.2 ∈ Finset.range 16 := Finset.mem_range.mpr (largest_lt w.2)
  unfold total handOut
  rw [Finset.sum_update_of_mem hmem, Finset.sdiff_singleton_eq_erase,
    ← Finset.add_sum_erase _ _ hmem]
  ring

theorem total_iterate (n : Nat) (w : (Nat → Int) × (Nat → Int)) :
    total (handOut^[n] w).1 = total w.1 + n := by
  induction n generalizing w with
  | zero => simp
  | succ n ih =>
    rw [Function.iterate_succ_apply, ih, total_handOut]
    push_cast
    ring

/-- What flooring takes away is handed out again. -/
theorem le_total_normaliseWeights (weights : Nat → Int) : 64 ≤ total (normaliseWeights weights) := by
  unfold normaliseWeights
  dsimp only
  rw [total_iterate]
  dsimp only
  omega

/-- No tile depends on what was in it before. -/
theorem getGreyDither_congr (channel : Nat) (out out' : Nat → Nat) {p : Nat} (hp : p < 64) :
    getGreyDither channel out p = getGreyDither channel out' p := by
  have hmemset : ∀ c, memsetTile c out p = memsetTile c out' p := fun c => by
    rw [memsetTile, memsetTile, if_pos hp, if_pos hp]
  have hgamma : correctGamma64 (channel - 0xC0) ≤ correctGamma64 (channel - 0xC0 + 1) :=
    Nat.div_le_div_right (Nat.mul_le_mul (Nat.le_succ _) (Nat.le_succ _))
  unfold getGreyDither
  split_ifs
  · exact hmemset 15
  · exact hmemset 0
  · exact hmemset 8
  · exact hmemset 7
  · refine fillDither_congr ?_ out out' hp
    simp only [total, Finset.sum_range_succ, Finset.sum_range_zero, twoWeights]
    norm_num
    omega
  · refine fillDither_congr ?_ out out' hp
    simp [total, Finset.sum_range_succ, twoWeights]
  · refine fillDither_congr ?_ out out' hp
    simp [total, Finset.sum_range_succ, twoWeights]

theorem getDither_congr (col : Nat) (out out' : Nat → Nat) {p : Nat} (hp : p < 64) :
    getDither col out p = getDither col out' p := by
  unfold getDither
  split_ifs
  · exact getGreyDither_congr _ out out' hp
  · exact fillDither_congr (le_total_normaliseWeights _) out out' hp

theorem writeTile_lt {cs ps : List Nat} {out : Nat → Nat} (hcs : ∀ c ∈ cs, c < 16)
    (hout : ∀ p, out p < 16) (p : Nat) : writeTile cs ps out p < 16 := by
  induction cs generalizing ps out with
  | nil => exact hout p
  | cons c cs ih =>
    obtain ⟨hc, hrest⟩ := List.forall_mem_cons.mp hcs
    cases ps with
    | nil => exact hout p
    | cons q ps =>
      refine ih hrest fun r => ?_
      by_cases hr : r = q
      · rw [hr, Function.update_self]
        exact hc
      · rw [Function.update_of_ne hr]
        exact hout r

/-- A dither consists of colours of the palette. -/
theorem getDither_lt (col : Nat) (out : Nat → Nat) {p : Nat} (hp : p < 64) :
    getDither col out p < 16 := by
  have hfill (weights : Nat → Int) : fillDitherUsingWeights weights (fun _ => 0) p < 16 := by
    refine writeTile_lt (fun c hc => ?_) (fun _ => by decide) p
    obtain ⟨d, hd, hc⟩ := List.mem_flatMap.mp hc
    rw [List.eq_of_mem_replicate hc]
    have hall : ∀ d ∈ vgaLumOrder, d < 16 := by decide
    exact hall d hd
  have hset {c : Nat} (hc : c < 16) : memsetTile c (fun _ => 0) p < 16 := by
    rw [memsetTile, if_pos hp]
    exact hc
  rw [getDither_congr col out (fun _ => 0) hp]
  unfold getDither getGreyDither
  split_ifs
  · exact hset (by decide)
  · exact hset (by decide)
  · exact hset (by decide)
  · exact hset (by decide)
  · exact hfill _
  · exact hfill _
  · exact hfill _
  · exact hfill _

end Nolrem.Vga
