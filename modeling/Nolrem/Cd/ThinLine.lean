import Mathlib.Algebra.Order.Ring.Abs
import Mathlib.Algebra.Order.Ring.Int
import Mathlib.Data.List.Chain
import Mathlib.Tactic.Ring
import Nolrem.Lib.CInt

/-!
# Thin lines

`DrawThinLine` of `kernel/CLIPDRAW/fallback/solidline.c`. What a call does is the list of the
rectangles that it fills.
-/

namespace Nolrem.Cd

open Nolrem.Lib

/-! ## The code -/

/-- The arguments of a call of `fill_rect`. -/
structure FillRect where
  x1 : Int
  y1 : Int
  x2 : Int
  y2 : Int
deriving DecidableEq, Repr

/-- `fill_rect(drv, x, y, x + 1, y + 1, colour)` -/
def fillPixel (x y : Int) : Option FillRect := do
  let right ← cInt (x + 1)
  let bottom ← cInt (y + 1)
  some ⟨x, y, right, bottom⟩

/-- `if (dx < 0) dx = -dx;` -/
def absInt (n : Int) : Option Int := if n < 0 then cInt (-n) else some n

/-- One of the two steps of a round: where the line is on an axis, and the error. -/
def thinStep (move : Bool) (err change pos step : Int) : Option (Int × Int) :=
  if move then do
    let err ← cInt (err + change)
    let pos ← cInt (pos + step)
    some (err, pos)
  else some (err, pos)

/-- The loop of `DrawThinLine`. -/
def thinLoop (x2 y2 dx dy sx sy : Int) : Nat → Int → Int → Int → Option (List FillRect)
  | 0, _, _, _ => none
  | fuel + 1, x1, y1, err => do
    let rect ← fillPixel x1 y1
    if x1 = x2 ∧ y1 = y2 then some [rect]
    else
      let e2 ← cInt (2 * err)
      let (err, x1) ← thinStep (e2 > -dy) err (-dy) x1 sx
      let (err, y1) ← thinStep (e2 < dx) err dx y1 sy
      let rects ← thinLoop x2 y2 dx dy sx sy fuel x1 y1 err
      some (rect :: rects)

/-- `DrawThinLine`, `none` if it overflows or does not end within the rounds -/
def drawThinLine (fuel : Nat) (x1 y1 x2 y2 : Int) : Option (List FillRect) := do
  let dx ← cInt (x2 - x1)
  let dx ← absInt dx
  let dy ← cInt (y2 - y1)
  let dy ← absInt dy
  let sx := if x1 < x2 then 1 else -1
  let sy := if y1 < y2 then 1 else -1
  let err ← cInt (dx - dy)
  thinLoop x2 y2 dx dy sx sy fuel x1 y1 err

/-! ## What a line is -/

/-- The pixel, as a rectangle. -/
def pixelRect (p : Int × Int) : FillRect := ⟨p.1, p.2, p.1 + 1, p.2 + 1⟩

/-- One of the eight pixels around another, or the same. -/
def Touching (p q : Int × Int) : Prop := |q.1 - p.1| ≤ 1 ∧ |q.2 - p.2| ≤ 1

/-- The pixel is no more than a half from the exact line, in the direction of the minor axis. -/
def CloseTo (x1 y1 x2 y2 : Int) (p : Int × Int) : Prop :=
  2 * |(p.1 - x1) * (y2 - y1) - (p.2 - y1) * (x2 - x1)| ≤ max |x2 - x1| |y2 - y1|

/-- A call ends, with the pixels of a line from one end to the other. -/
def DrawsThinLine (x1 y1 x2 y2 : Int) : Prop :=
  ∃ fuel, ∃ pixels : List (Int × Int), drawThinLine fuel x1 y1 x2 y2 = some (pixels.map pixelRect) ∧
    (pixels.length : Int) = max |x2 - x1| |y2 - y1| + 1 ∧
    pixels.head? = some (x1, y1) ∧ pixels.getLast? = some (x2, y2) ∧
    pixels.IsChain Touching ∧ ∀ p ∈ pixels, CloseTo x1 y1 x2 y2 p

/-! ## The error -/

/--
The line after `i` steps along one axis and `j` along the other, of `a` and `b`: it is no more than
a half away from the exact one.
-/
structure OnLine (a b i j : Int) : Prop where
  i_nonneg : 0 ≤ i
  i_le : i ≤ a
  j_nonneg : 0 ≤ j
  j_le : j ≤ b
  close : 2 * |i * b - j * a| ≤ max a b

/-- How far the line is along the longer axis. -/
def major (a b i j : Int) : Int := if b ≤ a then i else j

/-- The error that the loop keeps. -/
def thinErr (a b i j : Int) : Int := (j + 1) * a - (i + 1) * b

section Error

variable {a b i j : Int}

theorem thinErr_eq (a b i j : Int) : thinErr a b i j = a - b - (i * b - j * a) := by
  unfold thinErr
  ring

theorem OnLine.major_le (h : OnLine a b i j) : major a b i j ≤ max a b := by
  have := h.i_le
  have := h.j_le
  unfold major
  split_ifs <;> omega

/-- Whoever is at the end of the longer axis is at the end of the shorter one. -/
theorem OnLine.ends_iff (h : OnLine a b i j) : (i = a ∧ j = b) ↔ major a b i j = max a b := by
  have hclose := abs_le.mp (show |i * b - j * a| ≤ max a b / 2 by have := h.close; omega)
  have hi := h.i_le
  have hj := h.j_le
  have hi0 := h.i_nonneg
  have hj0 := h.j_nonneg
  unfold major
  constructor
  · rintro ⟨rfl, rfl⟩
    split_ifs <;> omega
  · split_ifs with hab
    · intro hmajor
      obtain rfl : i = a := by omega
      refine ⟨rfl, ?_⟩
      by_contra hne
      have hmul : i * 1 ≤ i * (b - j) := Int.mul_le_mul_of_nonneg_left (by omega) hi0
      have hexp : i * (b - j) = i * b - j * i := by ring
      omega
    · intro hmajor
      obtain rfl : j = b := by omega
      refine ⟨?_, rfl⟩
      by_contra hne
      have hmul : j * 1 ≤ j * (a - i) := Int.mul_le_mul_of_nonneg_left (by omega) hj0
      have hexp : j * (a - i) = -(i * j - j * a) := by ring
      omega

/-- A round: both conditions are about the error before it. -/
theorem OnLine.round (h : OnLine a b i j) (hend : ¬ (i = a ∧ j = b)) :
    ∃ i' j', OnLine a b i' j' ∧ major a b i' j' = major a b i j + 1 ∧
      (i' = if 2 * thinErr a b i j > -b then i + 1 else i) ∧
        j' = if 2 * thinErr a b i j < a then j + 1 else j := by
  rw [h.ends_iff] at hend
  have hmajor := h.major_le
  obtain ⟨hi0, hi, hj0, hj, hclose⟩ := h
  have hnear := abs_le.mp (show |i * b - j * a| ≤ max a b / 2 by omega)
  have hclose' {i' j' : Int} (h0 : 0 ≤ i' ∧ i' ≤ a) (h1 : 0 ≤ j' ∧ j' ≤ b)
      (h2 : -(max a b) ≤ 2 * (i' * b - j' * a) ∧ 2 * (i' * b - j' * a) ≤ max a b) :
      OnLine a b i' j' := by
    have habs := abs_le.mpr h2
    rw [abs_mul] at habs
    exact ⟨h0.1, h0.2, h1.1, h1.2, habs⟩
  have hx : (i + 1) * b - j * a = i * b - j * a + b := by ring
  have hy : i * b - (j + 1) * a = i * b - j * a - a := by ring
  have hxy : (i + 1) * b - (j + 1) * a = i * b - j * a + b - a := by ring
  rw [thinErr_eq]
  unfold major at *
  rcases le_or_gt b a with hab | hab
  · -- along the first axis there is a step in every round
    rw [if_pos hab] at hend hmajor ⊢
    have hmove : 2 * (a - b - (i * b - j * a)) > -b := by
      rcases hab.eq_or_lt with rfl | hlt
      · by_contra hno
        have hmul : (2 * (i - j) - 1) * b = 0 := by
          have hexp : (2 * (i - j) - 1) * b = 2 * (i * b - j * b) - b := by ring
          omega
        rcases mul_eq_zero.mp hmul with h0 | h0 <;> omega
      · omega
    rw [if_pos hmove]
    by_cases hside : 2 * (a - b - (i * b - j * a)) < a
    · have hlast : j < b := by
        by_contra hge
        obtain rfl : j = b := by omega
        have hmul : 1 * j ≤ (a - i) * j := Int.mul_le_mul_of_nonneg_right (by omega) hj0
        have hexp : (a - i) * j = -(i * j - j * a) := by ring
        omega
      exact ⟨i + 1, j + 1, hclose' (by omega) (by omega) (by omega), by rw [if_pos hab], rfl,
        (if_pos hside).symm⟩
    · exact ⟨i + 1, j, hclose' (by omega) (by omega) (by omega), by rw [if_pos hab], rfl,
        (if_neg hside).symm⟩
  · rw [if_neg hab.not_ge] at hend hmajor ⊢
    have hmove : 2 * (a - b - (i * b - j * a)) < a := by omega
    rw [if_pos hmove]
    by_cases hside : 2 * (a - b - (i * b - j * a)) > -b
    · have hlast : i < a := by
        by_contra hge
        obtain rfl : i = a := by omega
        have hmul : 1 * i ≤ (b - j) * i := Int.mul_le_mul_of_nonneg_right (by omega) hi0
        have hexp : (b - j) * i = i * b - j * i := by ring
        omega
      exact ⟨i + 1, j + 1, hclose' (by omega) (by omega) (by omega), by rw [if_neg hab.not_ge],
        (if_pos hside).symm, rfl⟩
    · exact ⟨i, j + 1, hclose' (by omega) (by omega) (by omega), by rw [if_neg hab.not_ge],
        (if_neg hside).symm, rfl⟩

end Error

/-! ## The loop -/

/-- Where the line is after `i` and `j` steps. -/
def linePoint (p s : Int × Int) (i j : Int) : Int × Int := (p.1 + i * s.1, p.2 + j * s.2)

/-- The pixels of a coordinate that takes `n` steps have their ends in `int`. -/
def Roomy1 (x step n : Int) : Prop :=
  ∀ i, 0 ≤ i → i ≤ n → FitsInt (x + i * step) ∧ FitsInt (x + i * step + 1)

/-- A direction, on an axis. -/
def IsSign (step : Int) : Prop := step = 1 ∨ step = -1

section Loop

variable {a b i j : Int} {p s : Int × Int}

theorem fillPixel_of_fits {x y : Int} (hx : FitsInt (x + 1)) (hy : FitsInt (y + 1)) :
    fillPixel x y = some (pixelRect (x, y)) := by
  unfold fillPixel
  rw [cInt_of_fits hx, cInt_of_fits hy]
  rfl

theorem thinStep_of_fits {move : Prop} [Decidable move] {err change x step : Int}
    (herr : FitsInt (err + change)) (hx : move → FitsInt (x + step)) :
    thinStep move err change x step =
      some (if move then err + change else err, if move then x + step else x) := by
  unfold thinStep
  by_cases hmove : move
  · rw [if_pos (decide_eq_true hmove), if_pos hmove, if_pos hmove, cInt_of_fits herr,
      cInt_of_fits (hx hmove)]
    rfl
  · rw [if_neg (by simpa using hmove), if_neg hmove, if_neg hmove]

theorem linePoint_inj (h1 : IsSign s.1) (h2 : IsSign s.2) {i' j' : Int} :
    (p.1 + i * s.1 = p.1 + i' * s.1 ∧ p.2 + j * s.2 = p.2 + j' * s.2) ↔ i = i' ∧ j = j' := by
  rcases h1 with h1 | h1 <;> rcases h2 with h2 | h2 <;> rw [h1, h2] <;> omega

theorem OnLine.fits (h : OnLine a b i j) (ha : a < 536870912) (hb : b < 536870912) :
    (-1073741824 < thinErr a b i j ∧ thinErr a b i j < 1073741824) ∧
      FitsInt (2 * thinErr a b i j) := by
  have hnear := abs_le.mp (show |i * b - j * a| ≤ max a b / 2 by have := h.close; omega)
  have ha0 := h.i_nonneg.trans h.i_le
  have hb0 := h.j_nonneg.trans h.j_le
  rw [thinErr_eq]
  exact ⟨by omega, by omega, by omega⟩

/-- The induction is on the steps that are left on the longer axis. -/
theorem thinLoop_spec (ha : a < 536870912) (hb : b < 536870912) (h1 : IsSign s.1)
    (h2 : IsSign s.2) (hroom1 : Roomy1 p.1 s.1 a) (hroom2 : Roomy1 p.2 s.2 b) (n : Nat)
    (h : OnLine a b i j) (hn : major a b i j + n = max a b) :
    ∃ rest : List (Int × Int),
      thinLoop (p.1 + a * s.1) (p.2 + b * s.2) a b s.1 s.2 (n + 1) (p.1 + i * s.1) (p.2 + j * s.2)
          (thinErr a b i j) = some ((linePoint p s i j :: rest).map pixelRect) ∧
        rest.length = n ∧ (linePoint p s i j :: rest).getLast? = some (linePoint p s a b) ∧
        (linePoint p s i j :: rest).IsChain Touching ∧
        ∀ q ∈ linePoint p s i j :: rest, ∃ i j, OnLine a b i j ∧ q = linePoint p s i j := by
  have hfill := fillPixel_of_fits (hroom1 i h.i_nonneg h.i_le).2 (hroom2 j h.j_nonneg h.j_le).2
  induction n generalizing i j with
  | zero =>
    have hends := h.ends_iff.mpr (by omega)
    refine ⟨[], ?_, rfl, ?_, List.isChain_singleton _, fun q hq => ?_⟩
    · rw [thinLoop, hfill, Option.bind_eq_bind, Option.bind_some,
        if_pos ((linePoint_inj h1 h2).mpr hends)]
      rfl
    · rw [hends.1, hends.2]
      rfl
    · exact ⟨i, j, h, List.mem_singleton.mp hq⟩
  | succ n ih =>
    have hends : ¬ (i = a ∧ j = b) := fun hend => by
      have := h.ends_iff.mp hend
      omega
    obtain ⟨i', j', h', hmajor, hi', hj'⟩ := h.round hends
    obtain ⟨hsmall, htwice⟩ := h.fits ha hb
    obtain ⟨rest, hloop, hlen, hlast, hchain, hall⟩ := ih h' (by omega)
      (fillPixel_of_fits (hroom1 i' h'.i_nonneg h'.i_le).2 (hroom2 j' h'.j_nonneg h'.j_le).2)
    have hx : p.1 + i' * s.1 =
        if 2 * thinErr a b i j > -b then p.1 + i * s.1 + s.1 else p.1 + i * s.1 := by
      rw [hi']
      split_ifs
      · ring
      · rfl
    have hy : p.2 + j' * s.2 =
        if 2 * thinErr a b i j < a then p.2 + j * s.2 + s.2 else p.2 + j * s.2 := by
      rw [hj']
      split_ifs
      · ring
      · rfl
    have herr : thinErr a b i' j' =
        if 2 * thinErr a b i j < a then
          (if 2 * thinErr a b i j > -b then thinErr a b i j + -b else thinErr a b i j) + a
        else if 2 * thinErr a b i j > -b then thinErr a b i j + -b else thinErr a b i j := by
      rw [hi', hj']
      generalize 2 * thinErr a b i j = e2
      unfold thinErr
      split_ifs <;> ring
    have ha0 := h.i_nonneg.trans h.i_le
    have hb0 := h.j_nonneg.trans h.j_le
    have hfits : FitsInt (thinErr a b i j + -b) := ⟨by omega, by omega⟩
    have hfits' : FitsInt ((if 2 * thinErr a b i j > -b then thinErr a b i j + -b else
        thinErr a b i j) + a) := by
      split_ifs <;> exact ⟨by omega, by omega⟩
    have hroomx : 2 * thinErr a b i j > -b → FitsInt (p.1 + i * s.1 + s.1) := fun hmove => by
      rw [if_pos hmove] at hx
      exact hx ▸ (hroom1 i' h'.i_nonneg h'.i_le).1
    have hroomy : 2 * thinErr a b i j < a → FitsInt (p.2 + j * s.2 + s.2) := fun hmove => by
      rw [if_pos hmove] at hy
      exact hy ▸ (hroom2 j' h'.j_nonneg h'.j_le).1
    have hnext : Touching (linePoint p s i j) (linePoint p s i' j') := by
      unfold Touching linePoint
      dsimp only
      rw [hx, hy, abs_le, abs_le]
      rcases h1 with h1 | h1 <;> rcases h2 with h2 | h2 <;> rw [h1, h2] <;> split_ifs <;> omega
    refine ⟨linePoint p s i' j' :: rest, ?_, by rw [List.length_cons, hlen], hlast,
      List.isChain_cons_cons.mpr ⟨hnext, hchain⟩,
      List.forall_mem_cons.mpr ⟨⟨i, j, h, rfl⟩, hall⟩⟩
    rw [thinLoop, hfill, Option.bind_eq_bind, Option.bind_some,
      if_neg fun heq => hends ((linePoint_inj h1 h2).mp heq), cInt_of_fits htwice,
      Option.bind_eq_bind, Option.bind_some, thinStep_of_fits hfits hroomx, Option.bind_eq_bind,
      Option.bind_some]
    dsimp only
    rw [thinStep_of_fits hfits' hroomy, Option.bind_eq_bind, Option.bind_some]
    dsimp only
    rw [← hx, ← hy, ← herr, hloop]
    rfl

end Loop

/-! ## The whole line -/

section Line

variable {x1 y1 x2 y2 : Int}

theorem absInt_of_fits {n : Int} (h : FitsInt |n|) : absInt n = some |n| := by
  unfold absInt
  split_ifs with hneg
  · rw [abs_of_neg hneg] at h ⊢
    exact cInt_of_fits h
  · rw [abs_of_nonneg (not_lt.mp hneg)]

/-- `sx` and `sy` -/
def signOf (x1 x2 : Int) : Int := if x1 < x2 then 1 else -1

theorem isSign_signOf (x1 x2 : Int) : IsSign (signOf x1 x2) := ite_eq_or_eq ..

theorem add_abs_mul_signOf (x1 x2 : Int) : x1 + |x2 - x1| * signOf x1 x2 = x2 := by
  unfold signOf
  split_ifs with h
  · rw [abs_of_nonneg (by omega)]
    omega
  · rw [abs_of_nonpos (by omega)]
    omega

theorem roomy1_signOf (h1 : FitsInt x1) (h2 : FitsInt x2) (hne1 : x1 ≠ 2147483647)
    (hne2 : x2 ≠ 2147483647) : Roomy1 x1 (signOf x1 x2) |x2 - x1| := by
  obtain ⟨h1, h1'⟩ := h1
  obtain ⟨h2, h2'⟩ := h2
  intro i hi0 hi
  have hle := abs_le.mp (le_refl |x2 - x1|)
  unfold signOf
  split_ifs with h
  · rw [abs_of_nonneg (by omega)] at hi
    exact ⟨⟨by omega, by omega⟩, by omega, by omega⟩
  · rw [abs_of_nonpos (by omega)] at hi
    exact ⟨⟨by omega, by omega⟩, by omega, by omega⟩

theorem onLine_start {a b : Int} (ha : 0 ≤ a) (hb : 0 ≤ b) : OnLine a b 0 0 :=
  ⟨le_rfl, ha, le_rfl, hb, by rw [Int.zero_mul, Int.zero_mul, Int.sub_self, abs_zero]; omega⟩

theorem drawThinLine_eq (fuel : Nat) (hdx : |x2 - x1| < 536870912) (hdy : |y2 - y1| < 536870912) :
    drawThinLine fuel x1 y1 x2 y2 =
      thinLoop (x1 + |x2 - x1| * signOf x1 x2) (y1 + |y2 - y1| * signOf y1 y2) |x2 - x1| |y2 - y1|
        (signOf x1 x2) (signOf y1 y2) fuel (x1 + 0 * signOf x1 x2) (y1 + 0 * signOf y1 y2)
        (thinErr |x2 - x1| |y2 - y1| 0 0) := by
  have hx := abs_lt.mp hdx
  have hy := abs_lt.mp hdy
  have hx0 := abs_nonneg (x2 - x1)
  have hy0 := abs_nonneg (y2 - y1)
  rw [add_abs_mul_signOf, add_abs_mul_signOf, Int.zero_mul, Int.zero_mul, Int.add_zero,
    Int.add_zero, thinErr_eq, Int.zero_mul, Int.zero_mul, Int.sub_self, Int.sub_zero]
  unfold drawThinLine
  rw [cInt_of_fits (show FitsInt (x2 - x1) from ⟨by omega, by omega⟩), Option.bind_eq_bind,
    Option.bind_some, absInt_of_fits ⟨by omega, by omega⟩, Option.bind_some,
    cInt_of_fits (show FitsInt (y2 - y1) from ⟨by omega, by omega⟩),
    Option.bind_some, absInt_of_fits ⟨by omega, by omega⟩, Option.bind_some]
  dsimp only
  rw [cInt_of_fits ⟨by omega, by omega⟩, Option.bind_some]
  rfl

/-- The distance of a pixel does not depend on the directions. -/
theorem OnLine.closeTo {i j : Int} (h : OnLine |x2 - x1| |y2 - y1| i j) :
    CloseTo x1 y1 x2 y2 (linePoint (x1, y1) (signOf x1 x2, signOf y1 y2) i j) := by
  have hx : x2 - x1 = |x2 - x1| * signOf x1 x2 := by
    have := add_abs_mul_signOf x1 x2
    omega
  have hy : y2 - y1 = |y2 - y1| * signOf y1 y2 := by
    have := add_abs_mul_signOf y1 y2
    omega
  have hcross : (x1 + i * signOf x1 x2 - x1) * (|y2 - y1| * signOf y1 y2) -
      (y1 + j * signOf y1 y2 - y1) * (|x2 - x1| * signOf x1 x2) =
        signOf x1 x2 * signOf y1 y2 * (i * |y2 - y1| - j * |x2 - x1|) := by ring
  have hone {n : Int} (hn : IsSign n) : |n| = 1 := by
    rcases hn with rfl | rfl <;> rfl
  have hclose := h.close
  unfold CloseTo linePoint
  dsimp only
  rw [← hy, ← hx] at hcross
  rwa [hcross, abs_mul, abs_mul, hone (isSign_signOf x1 x2), hone (isSign_signOf y1 y2), one_mul,
    one_mul]

theorem drawsThinLine (hfit : (FitsInt x1 ∧ FitsInt y1) ∧ FitsInt x2 ∧ FitsInt y2)
    (hdx : |x2 - x1| < 536870912) (hdy : |y2 - y1| < 536870912)
    (hne : (x1 ≠ 2147483647 ∧ y1 ≠ 2147483647) ∧ x2 ≠ 2147483647 ∧ y2 ≠ 2147483647) :
    DrawsThinLine x1 y1 x2 y2 := by
  have hx0 := abs_nonneg (x2 - x1)
  have hy0 := abs_nonneg (y2 - y1)
  obtain ⟨rest, hloop, hlen, hlast, hchain, hall⟩ := thinLoop_spec (p := (x1, y1))
    (s := (signOf x1 x2, signOf y1 y2)) hdx hdy (isSign_signOf x1 x2) (isSign_signOf y1 y2)
    (roomy1_signOf hfit.1.1 hfit.2.1 hne.1.1 hne.2.1)
    (roomy1_signOf hfit.1.2 hfit.2.2 hne.1.2 hne.2.2) (max |x2 - x1| |y2 - y1|).toNat
    (onLine_start hx0 hy0) (by
      unfold major
      split_ifs <;> omega)
  have hend : linePoint (x1, y1) (signOf x1 x2, signOf y1 y2) |x2 - x1| |y2 - y1| = (x2, y2) :=
    Prod.ext (add_abs_mul_signOf x1 x2) (add_abs_mul_signOf y1 y2)
  have hstart : linePoint (x1, y1) (signOf x1 x2, signOf y1 y2) 0 0 = (x1, y1) :=
    Prod.ext (by simp [linePoint]) (by simp [linePoint])
  refine ⟨_, _, (drawThinLine_eq _ hdx hdy).trans hloop, ?_, congrArg some hstart,
    hlast.trans (congrArg some hend), hchain, fun q hq => ?_⟩
  · rw [List.length_cons, hlen]
    omega
  · obtain ⟨i, j, honline, rfl⟩ := hall q hq
    exact honline.closeTo

/-- Whatever is filled has its ends in `int`. -/
theorem mem_thinLoop {dx dy sx sy err : Int} {fuel : Nat} {rects : List FillRect}
    (h : thinLoop x2 y2 dx dy sx sy fuel x1 y1 err = some rects) :
    ∀ r ∈ rects, FitsInt r.x2 ∧ FitsInt r.y2 := by
  induction fuel generalizing x1 y1 err rects with
  | zero => exact absurd h nofun
  | succ fuel ih =>
    obtain ⟨rect, hrect, h⟩ := Option.bind_eq_some_iff.mp h
    have hfits : FitsInt rect.x2 ∧ FitsInt rect.y2 := by
      obtain ⟨right, hright, hrect⟩ := Option.bind_eq_some_iff.mp hrect
      obtain ⟨bottom, hbottom, hrect⟩ := Option.bind_eq_some_iff.mp hrect
      obtain rfl := Option.some.inj hrect
      obtain ⟨h1, rfl⟩ := cInt_eq_some.mp hright
      obtain ⟨h2, rfl⟩ := cInt_eq_some.mp hbottom
      exact ⟨h1, h2⟩
    split_ifs at h
    · obtain rfl := Option.some.inj h
      exact fun r hr => List.mem_singleton.mp hr ▸ hfits
    · obtain ⟨e2, -, h⟩ := Option.bind_eq_some_iff.mp h
      obtain ⟨first, -, h⟩ := Option.bind_eq_some_iff.mp h
      obtain ⟨second, -, h⟩ := Option.bind_eq_some_iff.mp h
      obtain ⟨rest, hrest, h⟩ := Option.bind_eq_some_iff.mp h
      obtain rfl := Option.some.inj h
      exact List.forall_mem_cons.mpr ⟨hfits, ih hrest⟩

/--
**Thin lines.** They end, with one pixel for each step along the longer axis, next to the exact line
and next to each other, unless an end point is where a pixel has no end in `int`.
-/
theorem drawsThinLine_iff (hfit : (FitsInt x1 ∧ FitsInt y1) ∧ FitsInt x2 ∧ FitsInt y2)
    (hdx : |x2 - x1| < 536870912) (hdy : |y2 - y1| < 536870912) :
    DrawsThinLine x1 y1 x2 y2 ↔
      (x1 ≠ 2147483647 ∧ y1 ≠ 2147483647) ∧ x2 ≠ 2147483647 ∧ y2 ≠ 2147483647 := by
  refine ⟨?_, drawsThinLine hfit hdx hdy⟩
  rintro ⟨fuel, pixels, hdraw, -, hhead, hlast, -⟩
  rw [drawThinLine_eq fuel hdx hdy] at hdraw
  have hall := mem_thinLoop hdraw
  have hfirst := hall _ (List.mem_map_of_mem (List.mem_of_head? hhead))
  have hfinal := hall _ (List.mem_map_of_mem (List.mem_of_getLast? hlast))
  obtain ⟨⟨-, h1⟩, -, h2⟩ := hfirst
  obtain ⟨⟨-, h3⟩, -, h4⟩ := hfinal
  unfold pixelRect at h1 h2 h3 h4
  dsimp only at h1 h2 h3 h4
  omega

theorem drawsThinLine_iff_steep : DrawsThinLine 5 (-2) 3 40 :=
  (drawsThinLine_iff (by decide) (by decide) (by decide)).mpr (by decide)

theorem not_drawsThinLine_last :
    ¬ ∀ x1 y1 x2 y2 : Int, (FitsInt x1 ∧ FitsInt y1) ∧ FitsInt x2 ∧ FitsInt y2 →
      |x2 - x1| < 536870912 → |y2 - y1| < 536870912 → DrawsThinLine x1 y1 x2 y2 := by
  intro hall
  obtain ⟨fuel, pixels, hdraw, -, hhead, -⟩ := hall 2147483647 0 2147483647 0 (by decide)
    (by decide) (by decide)
  rw [drawThinLine_eq fuel (by decide) (by decide)] at hdraw
  have hfits := mem_thinLoop hdraw _ (List.mem_map_of_mem (List.mem_of_head? hhead))
  exact absurd hfits.1 (by decide)

end Line

end Nolrem.Cd
