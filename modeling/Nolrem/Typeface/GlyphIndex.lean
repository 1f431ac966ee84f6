import Mathlib.Algebra.BigOperators.Group.List.Basic
import Nolrem.Vfs.Omf

/-!
# Glyph lookup

`GetGlyphIndex` of `kernel/CLIPDRAW/font/typeface.c`. A font has glyphs for the code points from
`min_char` on, without those in the gaps of its gap table. Code points are natural numbers, as no
subtraction goes below zero.
-/

namespace Nolrem.Typeface

open Nolrem.Vfs.Copy Nolrem.Vfs.Omf

/-! ## The code -/

/-- `FNT_CODEPOINT_SIZE_8` -/
def fntCodepointSize8 : Nat := 2

/-- `FNT_CODEPOINT_SIZE_16` -/
def fntCodepointSize16 : Nat := 0

/-- `BAD_GLYPH_CHAR` -/
def badGlyphChar : Nat := 4294967295

/-- The fields of `struct font` that the lookup reads, and the file of its typeface -/
structure Font where
  omf : OpenMappedFile
  codepointSize : Nat
  fileOffset : UInt32
  minChar : UInt32
  numChars : UInt32
  gapTableOffset : UInt32
deriving DecidableEq, Repr

/-- `ReadAndAdvanceCodePointSize` -/
def readAndAdvanceCodePointSize (m : Memory) (codepointSize : Nat) (omf : OpenMappedFile) :
    Outcome Nat :=
  if codepointSize = fntCodepointSize8 then (omfRead8AndAdvance m omf).number UInt8.toNat
  else if codepointSize = fntCodepointSize16 then
    (omfRead16AndAdvanceLE m omf).number UInt16.toNat
  else (omfRead32AndAdvanceLE m omf).number UInt32.toNat

/-- The loop of `GetGlyphIndex`: what is left of `c`, or `none` if there is no glyph -/
def closeGaps (m : Memory) (codepointSize : Nat) :
    Nat → OpenMappedFile → Nat → Option Nat × OpenMappedFile
  | 0, omf, c => (some c, omf)
  | n + 1, omf, c =>
    let ifThis := readAndAdvanceCodePointSize m codepointSize omf
    let thenSub := readAndAdvanceCodePointSize m codepointSize ifThis.omf
    if thenSub.omf.error then (none, thenSub.omf)
    else if thenSub.value > ifThis.value then (none, thenSub.omf)
    else if c ≥ ifThis.value then closeGaps m codepointSize n thenSub.omf (c - thenSub.value)
    else if c ≥ ifThis.value - thenSub.value then (none, thenSub.omf)
    else (some c, thenSub.omf)

/-- `GetGlyphIndex` -/
def getGlyphIndex (m : Memory) (fn : Font) (c : Nat) : Nat × OpenMappedFile :=
  if c < fn.minChar.toNat then (badGlyphChar, fn.omf)
  else
    let c := c - fn.minChar.toNat
    let closed :=
      if fn.gapTableOffset ≠ 0 then
        let numGaps := (omfRead32AndAdvanceLE m
          (omfJump fn.omf (fn.fileOffset + fn.gapTableOffset))).number UInt32.toNat
        if numGaps.omf.error then (none, numGaps.omf)
        else closeGaps m fn.codepointSize numGaps.value numGaps.omf c
      else (some c, fn.omf)
    match closed.1 with
    | none => (badGlyphChar, closed.2)
    | some c => (if c ≥ fn.numChars.toNat then badGlyphChar else c, closed.2)

/-! ## Gaps -/

/-- The gaps of a table: from where to where code points have no glyph. Each entry counts code
points without what the entries before it take away. -/
def gapsFrom : Nat → List (Nat × Nat) → List (Nat × Nat)
  | _, [] => []
  | shift, (ifThis, thenSub) :: rest =>
    (ifThis - thenSub + shift, ifThis + shift) :: gapsFrom (shift + thenSub) rest

/-- How many code points the gaps below `c` take away. -/
def passed (gaps : List (Nat × Nat)) (c : Nat) : Nat :=
  ((gaps.filter fun gap => gap.2 ≤ c).map fun gap => gap.2 - gap.1).sum

/-- The code point is in a gap. -/
def InGap (gaps : List (Nat × Nat)) (c : Nat) : Prop := ∃ gap ∈ gaps, gap.1 ≤ c ∧ c < gap.2

/-- What the loop does to `c`, on the entries of the table -/
def closeUp : List (Nat × Nat) → Nat → Option Nat
  | [], c => some c
  | (ifThis, thenSub) :: rest, c =>
    if c ≥ ifThis then closeUp rest (c - thenSub)
    else if c ≥ ifThis - thenSub then none
    else some c

/-- The entries that the format allows, with gap starts that do not decrease -/
structure GapTable (table : List (Nat × Nat)) : Prop where
  sub_le : ∀ entry ∈ table, entry.2 ≤ entry.1
  sorted : table.Pairwise fun entry next => entry.1 - entry.2 ≤ next.1 - next.2

section
variable {table rest : List (Nat × Nat)} {entry : Nat × Nat} {shift c : Nat}

theorem GapTable.tail (h : GapTable (entry :: rest)) : GapTable rest :=
  ⟨fun e he => h.sub_le e (List.mem_cons_of_mem _ he), (List.pairwise_cons.mp h.sorted).2⟩

theorem le_of_mem_gapsFrom {low : Nat} (hlow : ∀ e ∈ table, low ≤ e.1 - e.2) (shift : Nat) :
    ∀ gap ∈ gapsFrom shift table, low + shift ≤ gap.1 ∧ gap.1 ≤ gap.2 := by
  induction table generalizing shift with
  | nil => simp [gapsFrom]
  | cons e rest ih =>
    intro gap hgap
    rw [gapsFrom, List.mem_cons] at hgap
    have he := hlow e (List.mem_cons_self ..)
    obtain rfl | hgap := hgap
    · simp only
      omega
    · have hrest := ih (fun e he => hlow e (List.mem_cons_of_mem _ he)) (shift + e.2) gap
        hgap
      omega

/-- Below all gaps nothing is taken away. -/
theorem passed_of_lt {gaps : List (Nat × Nat)} (h : ∀ gap ∈ gaps, c < gap.2) :
    passed gaps c = 0 := by
  rw [passed, List.filter_eq_nil_iff.mpr fun gap hgap => by simpa using h gap hgap]
  rfl

theorem closeUp_eq (h : GapTable table) (c shift : Nat) :
    (InGap (gapsFrom shift table) (c + shift) → closeUp table c = none) ∧
      (¬ InGap (gapsFrom shift table) (c + shift) →
        closeUp table c = some (c - passed (gapsFrom shift table) (c + shift))) := by
  -- `shift` is what has been taken off the code point so far
  induction table generalizing c shift with
  | nil => simp [closeUp, gapsFrom, InGap, passed]
  | cons entry rest ih =>
    obtain ⟨ifThis, thenSub⟩ := entry
    have hsub := h.sub_le _ (List.mem_cons_self ..)
    simp only at hsub
    have hsorted := (List.pairwise_cons.mp h.sorted).1
    simp only at hsorted
    have hgaps := le_of_mem_gapsFrom hsorted (shift + thenSub)
    rw [closeUp]
    split
    next hpast =>
      -- past this gap: it is not the one, and it is taken away
      have ih := ih h.tail (c - thenSub) (shift + thenSub)
      rw [show c - thenSub + (shift + thenSub) = c + shift by omega] at ih
      have hin : InGap (gapsFrom shift ((ifThis, thenSub) :: rest)) (c + shift) ↔
          InGap (gapsFrom (shift + thenSub) rest) (c + shift) := by
        simp only [InGap, gapsFrom, List.exists_mem_cons_iff]
        constructor
        · rintro (h | h)
          · omega
          · exact h
        · exact .inr
      have hpassed : passed (gapsFrom shift ((ifThis, thenSub) :: rest)) (c + shift) =
          thenSub + passed (gapsFrom (shift + thenSub) rest) (c + shift) := by
        rw [gapsFrom, passed, List.filter_cons_of_pos (by simp only [decide_eq_true_iff]; omega),
          List.map_cons, List.sum_cons, ← passed]
        congr 1
        omega
      rw [hin, hpassed, Nat.sub_add_eq]
      exact ih
    next hbefore =>
      split
      next hinside =>
        refine ⟨fun _ => rfl, fun hout => absurd ⟨_, List.mem_cons_self .., ?_, ?_⟩ hout⟩
        all_goals simp only
        all_goals omega
      next hbelow =>
        -- below this gap, and so below all others
        have hlt : ∀ gap ∈ gapsFrom shift ((ifThis, thenSub) :: rest), c + shift < gap.1 ∧
            gap.1 ≤ gap.2 := by
          intro gap hgap
          rw [gapsFrom, List.mem_cons] at hgap
          obtain rfl | hgap := hgap
          · simp only
            omega
          · have := hgaps gap hgap
            omega
        constructor
        · rintro ⟨gap, hgap, hle, -⟩
          have := hlt gap hgap
          omega
        · intro _
          rw [passed_of_lt fun gap hgap => by have := hlt gap hgap; omega]
          rfl

/-- What starts above a bound stays above it. -/
theorem le_closeUp {low : Nat} (h : GapTable table) (hlow : ∀ e ∈ table, low ≤ e.1 - e.2)
    (hc : low ≤ c) {index : Nat} (hindex : closeUp table c = some index) : low ≤ index := by
  induction table generalizing c with
  | nil =>
    obtain rfl := Option.some.inj hindex
    exact hc
  | cons entry rest ih =>
    obtain ⟨ifThis, thenSub⟩ := entry
    have hentry := hlow _ (List.mem_cons_self ..)
    have hsub := h.sub_le _ (List.mem_cons_self ..)
    simp only at hentry hsub
    rw [closeUp] at hindex
    split at hindex
    next hpast =>
      exact ih h.tail (fun e he => hlow e (List.mem_cons_of_mem _ he)) (by omega) hindex
    next =>
      split at hindex
      · cases hindex
      · obtain rfl := Option.some.inj hindex
        exact hc

/-- Closing up keeps the order of code points. -/
theorem closeUp_lt {d i j : Nat} (h : GapTable table) (hcd : c < d) (hi : closeUp table c = some i)
    (hj : closeUp table d = some j) : i < j := by
  induction table generalizing c d with
  | nil =>
    obtain rfl := Option.some.inj hi
    obtain rfl := Option.some.inj hj
    exact hcd
  | cons entry rest ih =>
    obtain ⟨ifThis, thenSub⟩ := entry
    have hsub := h.sub_le _ (List.mem_cons_self ..)
    have hsorted := (List.pairwise_cons.mp h.sorted).1
    simp only at hsub hsorted
    rw [closeUp] at hi hj
    by_cases hpast : c ≥ ifThis
    · -- what is past the gap here is past it there
      rw [if_pos hpast] at hi
      rw [if_pos (by omega)] at hj
      exact ih h.tail (by omega) hi hj
    · rw [if_neg hpast] at hi
      split at hi
      · cases hi
      next hbelow =>
        obtain rfl := Option.some.inj hi
        split at hj
        · have := le_closeUp h.tail hsorted (c := d - thenSub) (by omega) hj
          omega
        · split at hj
          · cases hj
          · obtain rfl := Option.some.inj hj
            exact hcd

end

/-! ## The table in the file -/

/-- How an entry of the table is read -/
def codepointRead (codepointSize : Nat) : Read :=
  if codepointSize = fntCodepointSize8 then .read8
  else if codepointSize = fntCodepointSize16 then .read16LE
  else .read32LE

theorem readAndAdvanceCodePointSize_eq (m : Memory) (codepointSize : Nat) (omf : OpenMappedFile) :
    readAndAdvanceCodePointSize m codepointSize omf =
      (codepointRead codepointSize).execAndAdvance m omf := by
  unfold readAndAdvanceCodePointSize codepointRead
  split
  · rfl
  · split <;> rfl

/-- The number at a place of the file -/
def numberAt (m : Memory) (ptr : UInt32) (r : Read) (offset : Nat) : Nat :=
  r.decode (fileBytes m ptr offset r.size)

/-- The `n` entries from a place of the file on -/
def entriesFrom (m : Memory) (ptr : UInt32) (r : Read) : Nat → Nat → List (Nat × Nat)
  | 0, _ => []
  | n + 1, offset =>
    (numberAt m ptr r offset, numberAt m ptr r (offset + r.size)) ::
      entriesFrom m ptr r n (offset + 2 * r.size)

namespace Font

/-- Where the gap table is -/
def gapTablePos (fn : Font) : Nat := (fn.fileOffset + fn.gapTableOffset).toNat

/-- `num_gaps` as the file has it -/
def numGaps (m : Memory) (fn : Font) : Nat :=
  if fn.gapTableOffset = 0 then 0 else numberAt m fn.omf.ptr .read32LE fn.gapTablePos

/-- The gap table as the file has it -/
def gapTable (m : Memory) (fn : Font) : List (Nat × Nat) :=
  entriesFrom m fn.omf.ptr (codepointRead fn.codepointSize) (fn.numGaps m) (fn.gapTablePos + 4)

/-- The gaps between the code points of the font -/
def gaps (m : Memory) (fn : Font) : List (Nat × Nat) := gapsFrom fn.minChar.toNat (fn.gapTable m)

/-- The index that a code point has when the gaps are closed up -/
def closedUp (m : Memory) (fn : Font) (c : Nat) : Nat :=
  c - fn.minChar.toNat - passed (fn.gaps m) c

/-- The file is not in error, and the gap table, if there is one, ends in it. -/
structure GapTableInFile (m : Memory) (fn : Font) : Prop where
  no_error : fn.omf.error = false
  fits : fn.gapTableOffset ≠ 0 → fn.gapTablePos + 4 +
    fn.numGaps m * (2 * (codepointRead fn.codepointSize).size) ≤ fn.omf.len.toNat

end Font

/-- A read inside the file gives the number there, and moves on. -/
theorem execAndAdvance_of_allows {r : Read} {m : Memory} {omf : OpenMappedFile}
    (h : omf.Allows r.size) :
    (r.execAndAdvance m omf).value = numberAt m omf.ptr r omf.cursor.toNat ∧
      (r.execAndAdvance m omf).omf = { omf with cursor := omf.cursor + UInt32.ofNat r.size } ∧
      (omf.cursor + UInt32.ofNat r.size).toNat = omf.cursor.toNat + r.size := by
  have hsize : omf.Allows (UInt32.ofNat r.size).toNat := by rwa [Read.toNat_size]
  rw [Read.execAndAdvance_eq, Read.exec_allowed h]
  refine ⟨rfl, omfAdvance_eq hsize, ?_⟩
  rw [toNat_cursor_add hsize, Read.toNat_size]

/-- While the entries are in the file, the loop does with them what `closeUp` does. -/
theorem closeGaps_eq (m : Memory) (size n : Nat) (omf : OpenMappedFile) (c : Nat)
    (herror : omf.error = false)
    (hfits : omf.cursor.toNat + n * (2 * (codepointRead size).size) ≤ omf.len.toNat)
    (hsub : ∀ e ∈ entriesFrom m omf.ptr (codepointRead size) n omf.cursor.toNat, e.2 ≤ e.1) :
    (closeGaps m size n omf c).1 =
        closeUp (entriesFrom m omf.ptr (codepointRead size) n omf.cursor.toNat) c ∧
      ∃ cursor, (closeGaps m size n omf c).2 = { omf with cursor } := by
  induction n generalizing omf c with
  | zero => exact ⟨rfl, omf.cursor, rfl⟩
  | succ n ih =>
    rw [Nat.add_mul, Nat.one_mul] at hfits
    -- both numbers of the entry are in the file, so neither read sets the error flag
    have hfirst : omf.Allows (codepointRead size).size := ⟨herror, by omega⟩
    obtain ⟨hif, homf, hcursor⟩ := execAndAdvance_of_allows (m := m) hfirst
    have hallows : OpenMappedFile.Allows
        { omf with cursor := omf.cursor + UInt32.ofNat (codepointRead size).size }
        (codepointRead size).size := ⟨herror, by simp only; omega⟩
    obtain ⟨hthen, homf', hcursor'⟩ := execAndAdvance_of_allows (m := m) hallows
    simp only at hthen homf' hcursor'
    rw [hcursor] at hthen
    have hoffset : (omf.cursor + UInt32.ofNat (codepointRead size).size +
        UInt32.ofNat (codepointRead size).size).toNat =
          omf.cursor.toNat + 2 * (codepointRead size).size := by omega
    rw [entriesFrom] at hsub
    have hle := hsub _ (List.mem_cons_self ..)
    simp only at hle
    rw [closeGaps, entriesFrom, closeUp]
    simp only [readAndAdvanceCodePointSize_eq, homf, hif, hthen, homf']
    rw [if_neg (by rw [herror]; decide), if_neg (by omega)]
    split
    · have ih := ih { omf with
          cursor := omf.cursor + UInt32.ofNat (codepointRead size).size +
            UInt32.ofNat (codepointRead size).size }
        (c - numberAt m omf.ptr (codepointRead size)
          (omf.cursor.toNat + (codepointRead size).size))
      simp only [hoffset] at ih
      obtain ⟨hval, cursor, hrest⟩ := ih herror (by omega)
        fun e he => hsub e (List.mem_cons_of_mem _ he)
      exact ⟨hval, cursor, hrest⟩
    · split
      · exact ⟨rfl, _, rfl⟩
      · exact ⟨rfl, _, rfl⟩

/-- The lookup on the table that the file has -/
theorem getGlyphIndex_eq {m : Memory} {fn : Font} (hfile : fn.GapTableInFile m)
    (hsub : ∀ e ∈ fn.gapTable m, e.2 ≤ e.1) (c : Nat) :
    (getGlyphIndex m fn c).1 =
        (if c < fn.minChar.toNat then badGlyphChar
        else match closeUp (fn.gapTable m) (c - fn.minChar.toNat) with
          | none => badGlyphChar
          | some index => if index ≥ fn.numChars.toNat then badGlyphChar else index) ∧
      ∃ cursor, (getGlyphIndex m fn c).2 = { fn.omf with cursor } := by
  obtain ⟨herror, hfits⟩ := hfile
  unfold getGlyphIndex
  split
  next => exact ⟨rfl, fn.omf.cursor, rfl⟩
  next hmin =>
    by_cases htable : fn.gapTableOffset = 0
    · have hempty : fn.gapTable m = [] := by
        rw [Font.gapTable, Font.numGaps, if_pos htable]
        rfl
      simp only [htable, ne_eq, not_true, if_false, hempty, closeUp]
      exact ⟨trivial, fn.omf.cursor, rfl⟩
    · have hfits := hfits htable
      have hjump : omfJump fn.omf (fn.fileOffset + fn.gapTableOffset) =
          { fn.omf with cursor := fn.fileOffset + fn.gapTableOffset } := by
        have hlen : ¬ fn.omf.len < fn.fileOffset + fn.gapTableOffset := by
          rw [UInt32.lt_iff_toNat_lt]
          rw [Font.gapTablePos] at hfits
          omega
        rw [omfJump, decide_eq_false hlen, Bool.or_false]
      have hnum : fn.numGaps m = numberAt m fn.omf.ptr .read32LE fn.gapTablePos := if_neg htable
      have hallows : OpenMappedFile.Allows
          { fn.omf with cursor := fn.fileOffset + fn.gapTableOffset } Read.read32LE.size :=
        ⟨herror, by simp only [Read.size]; rw [Font.gapTablePos] at hfits; omega⟩
      obtain ⟨hval, homf, hcursor⟩ := execAndAdvance_of_allows (m := m) hallows
      simp only at hval hcursor
      have hloop := closeGaps_eq m fn.codepointSize (fn.numGaps m)
        { fn.omf with
          cursor := fn.fileOffset + fn.gapTableOffset + UInt32.ofNat Read.read32LE.size }
        (c - fn.minChar.toNat)
      simp only [hcursor] at hloop
      obtain ⟨hclosed, cursor, hrest⟩ := hloop herror hfits hsub
      have hread : (omfRead32AndAdvanceLE m
          (omfJump fn.omf (fn.fileOffset + fn.gapTableOffset))).number UInt32.toNat =
            Read.read32LE.execAndAdvance m
              { fn.omf with cursor := fn.fileOffset + fn.gapTableOffset } := by
        rw [hjump]
        rfl
      simp only [ne_eq, htable, not_false_eq_true, if_true, hread, homf, hval]
      rw [if_neg (by rw [herror]; decide)]
      rw [Font.gapTablePos] at hnum
      have htab : entriesFrom m fn.omf.ptr (codepointRead fn.codepointSize) (fn.numGaps m)
          ((fn.fileOffset + fn.gapTableOffset).toNat + Read.read32LE.size) = fn.gapTable m := rfl
      rw [htab] at hclosed
      rw [← hnum, hclosed, hrest]
      cases closeUp (fn.gapTable m) (c - fn.minChar.toNat) with
      | none => exact ⟨rfl, cursor, rfl⟩
      | some index => exact ⟨rfl, cursor, rfl⟩

theorem badGlyphChar_le (fn : Font) : fn.numChars.toNat ≤ badGlyphChar :=
  Nat.le_of_lt_succ fn.numChars.toNat_lt

/-- Which code points have an index, and which one. -/
theorem getGlyphIndex_spec {m : Memory} {fn : Font} (hfile : fn.GapTableInFile m)
    (htable : GapTable (fn.gapTable m)) (c : Nat) :
    (getGlyphIndex m fn c).1 = badGlyphChar ∧ (c < fn.minChar.toNat ∨ InGap (fn.gaps m) c ∨
        fn.numChars.toNat ≤ fn.closedUp m c) ∨
      fn.minChar.toNat ≤ c ∧ ¬ InGap (fn.gaps m) c ∧ fn.closedUp m c < fn.numChars.toNat ∧
        (getGlyphIndex m fn c).1 = fn.closedUp m c ∧
        closeUp (fn.gapTable m) (c - fn.minChar.toNat) = some (fn.closedUp m c) := by
  rw [(getGlyphIndex_eq hfile htable.sub_le c).1]
  obtain hmin | hmin := Nat.lt_or_ge c fn.minChar.toNat
  · exact .inl ⟨if_pos hmin, .inl hmin⟩
  · rw [if_neg (by omega)]
    obtain ⟨hin, hout⟩ := closeUp_eq htable (c - fn.minChar.toNat) fn.minChar.toNat
    rw [Nat.sub_add_cancel hmin] at hin hout
    by_cases hgap : InGap (fn.gaps m) c
    · rw [hin hgap]
      exact .inl ⟨rfl, .inr (.inl hgap)⟩
    · have hindex : closeUp (fn.gapTable m) (c - fn.minChar.toNat) = some (fn.closedUp m c) :=
        hout hgap
      simp only [hindex]
      by_cases hlast : fn.closedUp m c ≥ fn.numChars.toNat
      · exact .inl ⟨if_pos hlast, .inr (.inr hlast)⟩
      · exact .inr ⟨hmin, hgap, by omega, if_neg hlast, trivial⟩

/-- Where the gap table of a font is in the file and sorted, the code points that have an index
have increasing ones, below `num_chars`, and the others are below `min_char`, in a gap, or have an
index from `num_chars` on when the gaps are closed up. -/
theorem getGlyphIndex_order (m : Memory) (fn : Font) (hfile : fn.GapTableInFile m)
    (htable : GapTable (fn.gapTable m)) :
    (∀ c d, c < d → (getGlyphIndex m fn c).1 ≠ badGlyphChar →
      (getGlyphIndex m fn d).1 ≠ badGlyphChar →
        (getGlyphIndex m fn c).1 < (getGlyphIndex m fn d).1) ∧
    (∀ c, (getGlyphIndex m fn c).1 ≠ badGlyphChar →
      (getGlyphIndex m fn c).1 < fn.numChars.toNat) ∧
    (∀ c, (getGlyphIndex m fn c).1 = badGlyphChar ↔ c < fn.minChar.toNat ∨ InGap (fn.gaps m) c ∨
      fn.numChars.toNat ≤ fn.closedUp m c) ∧
    ∀ c, ∃ cursor, (getGlyphIndex m fn c).2 = { fn.omf with cursor } := by
  refine ⟨?_, ?_, ?_, fun c => (getGlyphIndex_eq hfile htable.sub_le c).2⟩
  · intro c d hcd hc hd
    obtain ⟨hbad, -⟩ | ⟨hmin, -, -, hval, hclose⟩ := getGlyphIndex_spec hfile htable c
    · exact absurd hbad hc
    obtain ⟨hbad, -⟩ | ⟨hmin', -, -, hval', hclose'⟩ := getGlyphIndex_spec hfile htable d
    · exact absurd hbad hd
    rw [hval, hval']
    exact closeUp_lt htable (by omega) hclose hclose'
  · intro c hc
    obtain ⟨hbad, -⟩ | ⟨-, -, hlt, hval, -⟩ := getGlyphIndex_spec hfile htable c
    · exact absurd hbad hc
    · exact hval ▸ hlt
  · intro c
    have := badGlyphChar_le fn
    obtain ⟨hbad, hwhy⟩ | ⟨hmin, hgap, hlt, hval, -⟩ := getGlyphIndex_spec hfile htable c
    · exact ⟨fun _ => hwhy, fun _ => hbad⟩
    · constructor
      · intro hbad
        omega
      · rintro (hc | hc | hc)
        · omega
        · exact absurd hc hgap
        · omega

/-- The gap of two code points before the fifth is closed up. -/
theorem getGlyphIndex_order_gap :
    let m : Memory := fun p => if p = 8 then 1 else if p = 12 then 5 else if p = 13 then 2 else 0
    let fn : Font := ⟨⟨none, 0, 14, false, 0⟩, 2, 0, 32, 10, 8⟩
    (getGlyphIndex m fn 34).1 < (getGlyphIndex m fn 40).1 := by
  intro m fn
  have htable : fn.gapTable m = [(5, 2)] := by decide
  have hsorted : GapTable (fn.gapTable m) := by
    rw [htable]
    exact ⟨by decide, List.pairwise_singleton ..⟩
  exact (getGlyphIndex_order m fn ⟨rfl, fun _ => by decide⟩ hsorted).1 34 40 (by decide) (by decide)
    (by decide)

end Nolrem.Typeface
